/-!
Contract: the tables of a TOML document.

A table that a header defines is closed to dotted keys, and a table that dotted keys define is
closed to headers. Tables that only stand on the way to another one are open to a later header.
-/

namespace FunctionFlow.Toml

inductive Origin where
  | header
  | implied
  | dotted
  deriving DecidableEq, Repr, Inhabited

mutual
inductive Item where
  | text (value : String)
  | moment (rendered : String)
  | plain
  | array
  | inline (table : Table)
  | table (table : Table)
  | tables (earlier : List Table) (last : Table)
inductive Table where
  | mk (origin : Origin) (entries : List (String × Item))
end

instance : Inhabited Table := ⟨.mk .header []⟩

namespace Table

def origin : Table → Origin
  | mk origin _ => origin

def entries : Table → List (String × Item)
  | mk _ entries => entries

def find? (table : Table) (key : String) : Option Item :=
  table.entries.lookup key

def putEntry (key : String) (item : Item) : List (String × Item) → List (String × Item)
  | [] => [(key, item)]
  | (other, kept) :: rest =>
    if other = key then (key, item) :: rest else (other, kept) :: putEntry key item rest

def put (table : Table) (key : String) (item : Item) : Table :=
  mk table.origin (putEntry key item table.entries)

def update (isDotted : Bool) (change : Table → Option Table) :
    (path : List String) → Table → Option Table
  | [], table => change table
  | key :: path, table =>
    match table.find? key with
    | none => do
      let added := mk (if isDotted then .dotted else .implied) []
      return table.put key (.table (← update isDotted change path added))
    | some (.table child) => do
      if isDotted && child.origin == .header then failure
      return table.put key (.table (← update isDotted change path child))
    | some (.tables earlier last) => do
      return table.put key (.tables earlier (← update isDotted change path last))
    | some _ => none

def define (key : String) (table : Table) : Option Table :=
  match table.find? key with
  | none => some (table.put key (.table (mk .header [])))
  | some (.table (mk .implied entries)) => some (table.put key (.table (mk .header entries)))
  | some _ => none

def append (key : String) (table : Table) : Option Table :=
  match table.find? key with
  | none => some (table.put key (.tables [] (mk .header [])))
  | some (.tables earlier last) =>
    some (table.put key (.tables (earlier ++ [last]) (mk .header [])))
  | some _ => none

def assign (path : List String) (key : String) (item : Item) : Table → Option Table :=
  update true (fun table =>
    if (table.origin == .dotted) == path.isEmpty then none
    else
      match table.find? key with
      | none => some (table.put key item)
      | some _ => none) path

def texts? (table : Table) : Option (List (String × String)) :=
  table.entries.mapM fun (key, item) =>
    match item with
    | .text value => some (key, value)
    | _ => none

end Table

inductive Statement where
  | define (path : List String) (key : String)
  | append (path : List String) (key : String)
  | assign (path : List String) (key : String) (item : Item)

structure Document where
  root : Table
  current : List String
  deriving Inhabited

namespace Document

def empty : Document := ⟨.mk .header [], []⟩

def take (document : Document) : Statement → Option Document
  | .define path key => do
    return ⟨← document.root.update false (Table.define key) path, path ++ [key]⟩
  | .append path key => do
    return ⟨← document.root.update false (Table.append key) path, path ++ [key]⟩
  | .assign path key item => do
    let root ← document.root.update false (Table.assign path key item) document.current
    return { document with root }

def ofStatements (statements : List Statement) : Option Table := do
  return (← statements.foldlM take empty).root

end Document

end FunctionFlow.Toml
