import FunctionFlow.Id

/-!
Contract: why a run can fail.
-/

namespace FunctionFlow

inductive RuleFault where
  | missingSign
  | malformedPattern
  | oversizedPattern (limit : Nat)
  deriving DecidableEq, Repr, Inhabited

inductive WriteFault where
  | lostChunk
  | unflushed
  | alreadyClosed
  deriving DecidableEq, Repr, Inhabited

def WriteFault.message : WriteFault → String
  | lostChunk => "Failed to write output chunk"
  | unflushed => "Failed to flush output"
  | alreadyClosed => "JSON writer already finished"

inductive Failure where
  | outOfRange (lookup : OutOfRange)
  | unknownStrategy (name : String)
  | invalidRule (rule : String) (fault : RuleFault)
  | noFiles
  | invalidNatives
  | strangeVertex (label : String)
  | unreadableRules (path : String)
  | unreadableNatives (path : String)
  | invalidNativesFile (path : String)
  | uncreatable (path : String)
  | unwritten (fault : WriteFault)
  /-- A failure after the input was read, under the strategy with the given name. -/
  | analysis (strategy : String) (cause : Failure)
  deriving DecidableEq, Repr, Inhabited

def Failure.message : Failure → String
  | outOfRange _ => "analysis thread panicked"
  | unknownStrategy name => s!"Unknown strategy: {name}"
  | invalidRule rule .missingSign => s!"Invalid filter rule `{rule}`: expected a leading `+` or `-`"
  | invalidRule rule .malformedPattern => s!"Invalid filter rule `{rule}`: regex parse error:"
  | invalidRule rule (.oversizedPattern limit) =>
    s!"Invalid filter rule `{rule}`: Compiled regex exceeds size limit of {limit} bytes."
  | noFiles => "Input file list is empty!"
  | invalidNatives => "Invalid native table"
  | strangeVertex label => s!"strange vertex: {label}"
  | unreadableRules path => s!"Cannot read filter file {path}"
  | unreadableNatives path => s!"Cannot read native table {path}"
  | invalidNativesFile path => s!"Cannot parse native table {path}"
  | uncreatable path => s!"Cannot create {path}"
  | unwritten fault => fault.message
  | analysis strategy _ => s!"Analysis with strategy {strategy} failed"

abbrev Fallible := Except Failure

instance : MonadLift Checked Fallible where
  monadLift
    | .ok value => .ok value
    | .error lookup => .error (.outOfRange lookup)

end FunctionFlow
