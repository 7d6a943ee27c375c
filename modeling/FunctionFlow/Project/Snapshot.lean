import FunctionFlow.Json.Reader
import FunctionFlow.Project.FileTree

/-!
Contract: the files of a project in one JSON document.

A syntax tree is a list of its nodes in preorder. A node is a list of its kind, a number whose
lowest bits say whether it is named and whether it may stand anywhere, its first byte, the byte
after its last one, the number of its children, and an object with the positions of the children
that have a field name, which may be missing. A file tree is a list of what its working directory
holds: files, each with a path and a text or bytes, and directories.
-/

namespace FunctionFlow

def NodeInfo.fieldsOfJson? : List Json → Option (List (String × Nat))
  | [] => some []
  | [.object members] => members.mapM fun (.mk name value) => do return (name, ← value.nat?)
  | _ => none

def NodeInfo.ofJson? : Json → Option (NodeInfo × Nat)
  | .array (kind :: flags :: startByte :: endByte :: count :: fields) => do
    let flags ← flags.nat?
    let info : NodeInfo := {
      kind := ← kind.text?
      isNamed := flags % 2 == 1
      isExtra := flags / 2 % 2 == 1
      startByte := ← startByte.nat?
      endByte := ← endByte.nat?
      fields := ← fieldsOfJson? fields }
    return (info, ← count.nat?)
  | _ => none

def SyntaxTree.ofJson? (value : Json) : Option SyntaxTree := do
  let nodes ← (← (← value.member? "nodes").elements?).mapM NodeInfo.ofJson?
  return {
    hasErrors := ← (← value.member? "has_error").bool?
    root := ← (Node.forestOfPreorder nodes).head? }

def FileContent.bytesOfJson? (value : Json) : Option ByteArray :=
  match value.member? "bytes" with
  | some bytes => do
    return ((← (← bytes.elements?).mapM Json.nat?).map Nat.toUInt8).toByteArray
  | none => do return (← (← value.member? "text").text?).toUTF8

def FileContent.ofJson? (value : Json) : Option FileContent := do
  let bytes ← bytesOfJson? value
  match value.member? "tree" with
  | some tree => return { bytes, tree := ← SyntaxTree.ofJson? tree }
  | none => return { bytes }

namespace FileTree

def namesOf (path : String) : List String :=
  (Path.components path).filterMap fun
    | .name text => some text
    | _ => none

def putJson? (tree : FileTree) (value : Json) : Option FileTree :=
  match value.member? "dir" with
  | some path => do
    let names := tree.here ++ namesOf (← path.text?)
    return if tree.root.isDirectoryAt names then tree
      else { tree with root := tree.root.put default names }
  | none => do
    let names := tree.here ++ namesOf (← (← value.member? "path").text?)
    return { tree with root := tree.root.put (.file (← FileContent.ofJson? value)) names }

def blank : FileTree where
  root := .directory [.mk "work" (.directory [])]
  here := ["work"]

def ofJson? (value : Json) : Option FileTree := do
  (← value.elements?).foldlM putJson? blank

def pathFrom : (here names : List String) → String
  | first :: here, name :: names =>
    if first = name then pathFrom here names
    else "/".intercalate (List.replicate (here.length + 1) ".." ++ name :: names)
  | here, names => "/".intercalate (List.replicate here.length ".." ++ names)

/-- The files of a tree that are new or have changed, ordered by their paths from the working
directory. -/
def changesSince (after before : FileTree) : List (String × FileContent) :=
  let known := before.root.files
  let changed := after.root.files.filter fun (names, content) =>
    !known.any fun (others, kept) => others == names && kept.bytes == content.bytes
  let spelled := changed.map fun (names, content) => (pathFrom after.here names, content)
  spelled.mergeSort fun left right => left.1 ≤ right.1

end FileTree

end FunctionFlow
