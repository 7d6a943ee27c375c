/-!
Contract: finite maps from names to values.

Entries that are inserted one by one are listed by increasing name. Names are ordered by code point,
which is also the order of their UTF-8 bytes.
-/

namespace FunctionFlow

/-- A map from names to values; of two entries with one name the first counts. -/
structure NameTable (α : Type) where
  entries : List (String × α)
  deriving DecidableEq, Repr

namespace NameTable

variable {α : Type}

def empty : NameTable α := ⟨[]⟩

instance : Inhabited (NameTable α) := ⟨empty⟩

def find? (table : NameTable α) (name : String) : Option α :=
  table.entries.lookup name

/-- Puts an entry at its place in a list ordered by name, over an entry of the same name. -/
def insertEntry (name : String) (value : α) : List (String × α) → List (String × α)
  | [] => [(name, value)]
  | (other, kept) :: rest =>
    if name < other then (name, value) :: (other, kept) :: rest
    else if name = other then (name, value) :: rest
    else (other, kept) :: insertEntry name value rest

def insert (table : NameTable α) (name : String) (value : α) : NameTable α :=
  { entries := insertEntry name value table.entries }

def ofList (pairs : List (String × α)) : NameTable α :=
  pairs.foldl (fun table pair => table.insert pair.1 pair.2) empty

def size (table : NameTable α) : Nat := table.entries.length

def isEmpty (table : NameTable α) : Bool := table.entries.isEmpty

end NameTable

end FunctionFlow
