/-
# ImportTidy.Settings.Toml.Tree — the tables of a TOML document

A document is built line by line. Headers open tables and elements of arrays of tables, and entries
are put into the table that was opened last, under keys that may name tables in between. A table
remembers how it came to be, because that decides who may still add to it: a table with a header of
its own gets no second one, and dotted keys add only to tables that dotted keys have made. A name
is never given twice.
-/
import ImportTidy.Settings.Value

namespace ImportTidy.Toml

/-- How a table came to be. -/
inductive Origin where
  /-- It has a header. -/
  | header
  /-- A header of a deeper table leads through it. -/
  | passage
  /-- A dotted key leads through it. -/
  | dottedKey
  deriving DecidableEq, Repr

/-- What stands under a name. -/
inductive Node where
  /-- A value that was written in one piece, tables in braces included. -/
  | value (v : Value)
  | table (origin : Origin) (entries : List (Text × Node))
  /-- An array of tables, each element with a header. -/
  | tables (elements : List (List (Text × Node)))

/-- The names of a table and what stands under them. -/
abbrev Entries := List (Text × Node)

namespace Entries

/-- The entries with one of them set. -/
def put (name : Text) (n : Node) (es : Entries) : Entries :=
  es.filter (fun e => e.1 != name) ++ [(name, n)]

/-- Puts a value under a key. The tables between are made as needed; those that have another origin
than a dotted key can be passed but not added to. -/
def assign (v : Value) : (key : List Text) → Entries → Option Entries
  | [], _ => none
  | [name], es => if (es.lookup name).isSome then none else some (es.put name (.value v))
  | name :: next :: path, es =>
    let direct := path.isEmpty
    match es.lookup name with
    | none => (assign v (next :: path) []).map fun inner => es.put name (.table .dottedKey inner)
    | some (.table .dottedKey inner) =>
      (assign v (next :: path) inner).map fun inner => es.put name (.table .dottedKey inner)
    | some (.table .passage inner) =>
      if direct then none
      else (assign v (next :: path) inner).map fun inner => es.put name (.table .passage inner)
    | some (.tables elements) =>
      match elements.getLast? with
      | some last =>
        if direct then none
        else
          (assign v (next :: path) last).map fun last =>
            es.put name (.tables (elements.dropLast ++ [last]))
      | none => none
    | some _ => none

/-- Changes the table that a header's path leads to. Of an array of tables the last element is
meant. -/
def changeAt (change : Entries → Option Entries) : (path : List Text) → Entries → Option Entries
  | [], es => change es
  | name :: path, es =>
    match es.lookup name with
    | none => (changeAt change path []).map fun inner => es.put name (.table .passage inner)
    | some (.table origin inner) =>
      (changeAt change path inner).map fun inner => es.put name (.table origin inner)
    | some (.tables elements) =>
      match elements.getLast? with
      | some last =>
        (changeAt change path last).map fun last =>
          es.put name (.tables (elements.dropLast ++ [last]))
      | none => none
    | some (.value _) => none

/-- Opens a table by its header. -/
def openTable (name : Text) (es : Entries) : Option Entries :=
  match es.lookup name with
  | none => some (es.put name (.table .header []))
  | some (.table .passage inner) => some (es.put name (.table .header inner))
  | some _ => none

/-- Opens a new element of an array of tables. -/
def openElement (name : Text) (es : Entries) : Option Entries :=
  match es.lookup name with
  | none => some (es.put name (.tables [[]]))
  | some (.tables elements) => some (es.put name (.tables (elements ++ [[]])))
  | some _ => none

end Entries

/-! ## Values of nodes -/

mutual

/-- The value of a node. -/
def Node.toValue : Node → Value
  | .value v => v
  | .table _ entries => .table (entryValues entries)
  | .tables elements => .list (elementValues elements)

/-- The values of the entries. -/
def entryValues : List (Text × Node) → List (Text × Value)
  | [] => []
  | (name, n) :: rest => (name, n.toValue) :: entryValues rest

/-- The values of the elements. -/
def elementValues : List (List (Text × Node)) → List Value
  | [] => []
  | entries :: rest => .table (entryValues entries) :: elementValues rest

end

/-- A table in braces: its entries, each under a key. -/
def braced? (pairs : List (List Text × Value)) : Option Value :=
  (pairs.foldlM (fun (es : Entries) (key, v) => es.assign v key) []).map fun es =>
    .table (entryValues es)

/-! ## Documents -/

/-- A line with something to say. -/
inductive Line where
  /-- The header of a table. -/
  | table (path : List Text)
  /-- The header of an element of an array of tables. -/
  | element (path : List Text)
  | entry (key : List Text) (v : Value)

/-- A document so far: its tables, and the path of the one that is open. -/
structure Document where
  entries : Entries
  current : List Text

namespace Document

/-- Opens something at a path and makes it the current table. -/
def enter (opening : Text → Entries → Option Entries) (path : List Text) (d : Document) :
    Option Document :=
  match path.getLast? with
  | none => none
  | some name => (d.entries.changeAt (opening name) path.dropLast).map fun es => ⟨es, path⟩

/-- The document with one more line. -/
def add (d : Document) : Line → Option Document
  | .table path => d.enter Entries.openTable path
  | .element path => d.enter Entries.openElement path
  | .entry key v =>
    (d.entries.changeAt (Entries.assign v key) d.current).map fun es => { d with entries := es }

/-- The table that some lines describe. -/
def ofLines? (lines : List Line) : Option Value :=
  (lines.foldlM add ⟨[], []⟩).map fun d => .table (entryValues d.entries)

end Document

end ImportTidy.Toml
