import FunctionFlow.Lowering.Source

/-!
Contract: the files of a project.

A path with a slash in front starts at the root, any other in the working directory. The root is its
own parent. A step from a file leads nowhere, even one that ends in a slash, and so do the empty
path and a path that is too long.
-/

namespace FunctionFlow

structure FileContent where
  bytes : ByteArray
  /-- The syntax tree of a source file. -/
  tree : SyntaxTree := default
  deriving Inhabited

def FileContent.text? (content : FileContent) : Option String :=
  String.fromUTF8? content.bytes

mutual
inductive FileNode where
  | file (content : FileContent)
  | directory (entries : List DirectoryEntry)
inductive DirectoryEntry where
  | mk (name : String) (node : FileNode)
end

instance : Inhabited FileNode := ⟨.directory []⟩

namespace DirectoryEntry

def name : DirectoryEntry → String
  | mk name _ => name

def node : DirectoryEntry → FileNode
  | mk _ node => node

end DirectoryEntry

inductive ReadFault where
  | missing
  | tooLong
  | isDirectory
  | notText
  deriving DecidableEq, Repr, Inhabited

def ReadFault.message : ReadFault → String
  | missing => "No such file or directory (os error 2)"
  | tooLong => "File name too long (os error 36)"
  | isDirectory => "Is a directory (os error 21)"
  | notText => "stream did not contain valid UTF-8"

namespace FileNode

def child? (entries : List DirectoryEntry) (name : String) : Option FileNode :=
  (entries.find? (·.name == name)).map (·.node)

def descend : FileNode → (names : List String) → Option FileNode
  | node, [] => some node
  | file _, _ :: _ => none
  | directory entries, name :: names => do (← child? entries name).descend names

def isDirectoryAt (root : FileNode) (names : List String) : Bool :=
  match root.descend names with
  | some (directory _) => true
  | _ => false

/-- Follows the pieces of a path from the directory at `here`, and answers the names that lead to
its end. The end itself need not exist. -/
def follow (root : FileNode) : (here : List String) → (pieces : List (List Char)) →
    Option (List String)
  | here, [] => some here
  | here, piece :: pieces =>
    if !root.isDirectoryAt here then none
    else if piece = [] ∨ piece = ['.'] then root.follow here pieces
    else if piece = ['.', '.'] then root.follow here.dropLast pieces
    else root.follow (here ++ [String.ofList piece]) pieces

def putEntry (name : String) (node : FileNode) : List DirectoryEntry → List DirectoryEntry
  | [] => [.mk name node]
  | entry :: rest =>
    if entry.name = name then .mk name node :: rest else entry :: putEntry name node rest

/-- The node with something put where a list of names leads. Directories on the way are added. -/
def put : (node new : FileNode) → (names : List String) → FileNode
  | _, new, [] => new
  | file content, _, _ :: _ => file content
  | directory entries, new, name :: names =>
    directory (putEntry name (put ((child? entries name).getD default) new names) entries)

mutual
def files : FileNode → List (List String × FileContent)
  | file content => [([], content)]
  | directory entries => filesOf entries
def filesOf : List DirectoryEntry → List (List String × FileContent)
  | [] => []
  | .mk name node :: rest =>
    (node.files.map fun (names, content) => (name :: names, content)) ++ filesOf rest
end

end FileNode

structure FileTree where
  root : FileNode
  /-- The names that lead from the root to the working directory. -/
  here : List String
  deriving Inhabited

namespace FileTree

def pieces? (tree : FileTree) (path : String) : Option (List String × List (List Char)) :=
  if path.isEmpty || !Path.isUsable path then none
  else
    let pieces := Path.splitSlashes path.toList
    some (if pieces.head? = some [] then [] else tree.here, pieces)

/-- The names that lead from the root to the end of a path. -/
def locate (tree : FileTree) (path : String) : Option (List String) := do
  let (start, pieces) ← tree.pieces? path
  tree.root.follow start pieces

def at? (tree : FileTree) (path : String) : Option FileNode := do
  tree.root.descend (← tree.locate path)

def readText (tree : FileTree) (path : String) : Except ReadFault String :=
  match tree.at? path with
  | none => throw (if Path.isTooLong path then .tooLong else .missing)
  | some (.directory _) => throw .isDirectory
  | some (.file content) =>
    match content.text? with
    | some text => return text
    | none => throw .notText

/-- Creates a file, or replaces the one at the path. There has to be a directory for it. -/
def create (tree : FileTree) (path : String) (content : FileContent) : Option FileTree := do
  let (start, pieces) ← tree.pieces? path
  let parent ← tree.root.follow start pieces.dropLast
  let place ← tree.root.follow start pieces
  if !tree.root.isDirectoryAt parent || tree.root.isDirectoryAt place then failure
  return { tree with root := tree.root.put (.file content) place }

end FileTree

end FunctionFlow
