/-!
Contract: slash-separated paths.
-/

namespace FunctionFlow.Path

/-- One step of a path, in the order in which steps compare. -/
inductive Component where
  | root
  | current
  | parent
  | name (text : String)
  deriving DecidableEq, Repr

def splitSlashes : List Char → List (List Char)
  | [] => [[]]
  | '/' :: rest => [] :: splitSlashes rest
  | char :: rest =>
    match splitSlashes rest with
    | [] => [[char]]
    | piece :: pieces => (char :: piece) :: pieces

def pathLimit : Nat := 4095

def nameLimit : Nat := 255

def isTooLong (path : String) : Bool := pathLimit < path.utf8ByteSize

/-- Whether a path can lead anywhere: it is no longer than paths and names can be, and it does not
hold the character that ends texts in memory. -/
def isUsable (path : String) : Bool :=
  !isTooLong path && !path.toList.contains '\x00'
    && (splitSlashes path.toList).all fun piece => (String.ofList piece).utf8ByteSize ≤ nameLimit

/-- The step that an inner piece stands for; empty pieces and single dots are no steps. -/
def component? (piece : List Char) : Option Component :=
  if piece = [] ∨ piece = ['.'] then none
  else if piece = ['.', '.'] then some .parent
  else some (.name (String.ofList piece))

/-- The steps of a path. A single dot counts only at the very front. -/
def components (path : String) : List Component :=
  match splitSlashes path.toList with
  | [] => []
  | [[]] => []
  | [] :: rest => .root :: rest.filterMap component?
  | ['.'] :: rest => .current :: rest.filterMap component?
  | pieces => pieces.filterMap component?

def fileName? (path : String) : Option String :=
  match (components path).getLast? with
  | some (.name text) => some text
  | _ => none

/-- The part of a file name after its last dot; a dot at the front starts no extension. -/
def extensionOf? (name : String) : Option String :=
  let reversed := name.toList.reverse
  match reversed.dropWhile (· ≠ '.') with
  | [] | [_] => none
  | _ :: _ => some (String.ofList (reversed.takeWhile (· ≠ '.')).reverse)

def extension? (path : String) : Option String :=
  (fileName? path).bind extensionOf?

def join (directory name : String) : String :=
  if directory.isEmpty ∨ directory.toList.getLast? = some '/' then directory ++ name
  else directory ++ "/" ++ name

def Component.before : Component → Component → Bool
  | .root, .root => false
  | .root, _ => true
  | .current, .root | .current, .current => false
  | .current, _ => true
  | .parent, .name _ => true
  | .parent, _ => false
  | .name left, .name right => left < right
  | .name _, _ => false

def componentsLe : List Component → List Component → Bool
  | [], _ => true
  | _ :: _, [] => false
  | left :: lefts, right :: rights =>
    left.before right || (left == right && componentsLe lefts rights)

def le (left right : String) : Bool :=
  componentsLe (components left) (components right)

end FunctionFlow.Path
