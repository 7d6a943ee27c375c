import FunctionFlow.Project.FileTree
import FunctionFlow.Text.Distinct

/-!
Contract: the source files that inputs stand for.

An input directory stands for all source files below it, ordered by path, except those inside
directories that hold other people's code or the history of versions.
-/

namespace FunctionFlow

def sourceExtensions : List String := ["js", "jsx", "mjs", "cjs", "ts", "tsx", "vue"]

def isSourcePath (path : String) : Bool :=
  match Path.extension? path with
  | some extension => sourceExtensions.contains (Text.lower extension)
  | none => false

def isPassedOver (path : String) : Bool :=
  match Path.fileName? path with
  | some name => name == "node_modules" || name == ".git"
  | none => false

mutual
/-- The source files below a node at a path, in the order of the entries. What lies at a path that
is too long counts as a file. -/
def FileNode.sourcesBelow (path : String) : FileNode → List String
  | .file _ => if isSourcePath path then [path] else []
  | .directory entries =>
    if Path.isTooLong path then if isSourcePath path then [path] else []
    else if isPassedOver path then []
    else FileNode.sourcesOf path entries
def FileNode.sourcesOf (path : String) : List DirectoryEntry → List String
  | [] => []
  | .mk name node :: rest => node.sourcesBelow (Path.join path name) ++ FileNode.sourcesOf path rest
end

namespace FileTree

def collectInput (tree : FileTree) (input : String) : List String × List Event :=
  match tree.at? input with
  | none => ([], [.missingInput input])
  | some (.directory entries) =>
    (((FileNode.directory entries).sourcesBelow input).mergeSort Path.le, [])
  | some (.file _) =>
    if isSourcePath input then ([input], []) else ([], [.skippedInput input])

/-- The source files that inputs stand for, none of them twice. -/
def collect (tree : FileTree) (inputs : List String) : List String :=
  distinct (inputs.flatMap fun input => (tree.collectInput input).1)

def collectEvents (tree : FileTree) (inputs : List String) : List Event :=
  inputs.flatMap fun input => (tree.collectInput input).2

def treeAt (tree : FileTree) (path : String) : SyntaxTree :=
  match tree.at? path with
  | some (.file content) => content.tree
  | _ => default

def load (tree : FileTree) (paths : List String) : List SourceFile :=
  paths.filterMap fun path =>
    match tree.readText path with
    | .ok text => some { path, text, tree := tree.treeAt path }
    | .error _ => none

def loadEvents (tree : FileTree) (paths : List String) : List Event :=
  paths.filterMap fun path =>
    match tree.readText path with
    | .ok _ => none
    | .error fault => some (.unreadableFile path fault.message)

end FileTree

end FunctionFlow
