import TouchStream.Data.Datum

/-!
# TOML tables

A document fills a tree of tables, statement by statement. How a table came about decides what may still be
added to it, so that nothing is defined twice.

* `Toml.assign`: the assignment of a value to a dotted key.
* `Toml.openTable`, `Toml.openElement`: the two kinds of table headers.
* `Toml.Table.datum`: the table as data.
-/

namespace TouchStream.Toml

/-- A dotted key: its last part, and the parts before it. -/
structure Key where
  path : List String
  last : String
deriving DecidableEq, Repr

/-- All parts of a dotted key. -/
def Key.parts (k : Key) : List String := k.path ++ [k.last]

/-- How a table came about. -/
inductive Origin
  /-- By a header of its own. -/
  | header
  /-- By the header of a table within it. -/
  | implied
  /-- By a dotted key. -/
  | dotted
deriving DecidableEq, Repr

/-- What a key of a table stands for. -/
inductive Entry where
  | value (d : Datum)
  | table (origin : Origin) (entries : List (String × Entry))
  /-- An array of tables, each opened by a header. -/
  | tables (elements : List (List (String × Entry)))

/-- The keys of a table with what they stand for. -/
abbrev Table := List (String × Entry)

namespace Table

/-- The table with an entry in the place of the one with the same key, or at the end. -/
def put (key : String) (e : Entry) : Table → Table
  | [] => [(key, e)]
  | (k, old) :: rest => if k == key then (key, e) :: rest else (k, old) :: put key e rest

end Table

/-! ## Assignments -/

/-- Assigns a value to a key in the table that the tables of the other parts of a dotted key lead to. The last
of these tables must have come about by a dotted key too, and none of them by a header. `fits` tells this of
the table at hand. -/
def assignAt (key : String) (d : Datum) : (path : List String) → (fits : Bool) → Table → Option Table
  | [], fits, t =>
    if fits && (t.lookup key).isNone then some (t.put key (.value d)) else none
  | part :: path, _, t =>
    match t.lookup part with
    | none => (assignAt key d path true []).map fun u => t.put part (.table .dotted u)
    | some (.value _) => none
    | some (.table .header _) => none
    | some (.table .implied u) =>
      (assignAt key d path false u).map fun u => t.put part (.table .implied u)
    | some (.table .dotted u) =>
      (assignAt key d path true u).map fun u => t.put part (.table .dotted u)
    | some (.tables us) =>
      match us.getLast? with
      | none => none
      | some u =>
        (assignAt key d path false u).map fun u => t.put part (.tables (us.dropLast ++ [u]))

/-- Assigns a value to a dotted key of a table. -/
def assign (key : Key) (d : Datum) : Table → Option Table := assignAt key.last d key.path true

/-- Changes the table that a header has opened. In an array of tables that is the last one. -/
def within (change : Table → Option Table) : (path : List String) → Table → Option Table
  | [], t => change t
  | part :: path, t =>
    match t.lookup part with
    | none => none
    | some (.value _) => none
    | some (.table origin u) =>
      (within change path u).map fun u => t.put part (.table origin u)
    | some (.tables us) =>
      match us.getLast? with
      | none => none
      | some u => (within change path u).map fun u => t.put part (.tables (us.dropLast ++ [u]))

/-! ## Headers -/

/-- Changes the entry of a key in the table that the other parts of the key lead to. Tables on the way that
are not there yet come about. -/
def openEntry (change : Option Entry → Option Entry) (key : String) :
    (path : List String) → Table → Option Table
  | [], t => (change (t.lookup key)).map fun e => t.put key e
  | part :: path, t =>
    match t.lookup part with
    | none => (openEntry change key path []).map fun u => t.put part (.table .implied u)
    | some (.value _) => none
    | some (.table origin u) =>
      (openEntry change key path u).map fun u => t.put part (.table origin u)
    | some (.tables us) =>
      match us.getLast? with
      | none => none
      | some u =>
        (openEntry change key path u).map fun u => t.put part (.tables (us.dropLast ++ [u]))

/-- A header opens a table that is new, or that only the headers of its inner tables have implied. -/
def openTable (key : Key) : Table → Option Table :=
  openEntry (fun
    | none => some (.table .header [])
    | some (.table .implied u) => some (.table .header u)
    | _ => none) key.last key.path

/-- A header in double brackets adds an element to an array of tables. -/
def openElement (key : Key) : Table → Option Table :=
  openEntry (fun
    | none => some (.tables [[]])
    | some (.tables us) => some (.tables (us ++ [[]]))
    | _ => none) key.last key.path

/-! ## Data -/

mutual

/-- An entry as data. -/
def Entry.datum : Entry → Datum
  | .value d => d
  | .table _ t => .record (entriesData t)
  | .tables us => .list (elementsData us)

/-- The entries of a table as members. -/
def entriesData : List (String × Entry) → List (String × Datum)
  | [] => []
  | (key, e) :: rest => (key, e.datum) :: entriesData rest

/-- The elements of an array of tables as items. -/
def elementsData : List (List (String × Entry)) → List Datum
  | [] => []
  | t :: rest => .record (entriesData t) :: elementsData rest

end

/-- A table as data. -/
def Table.datum (t : Table) : Datum := .record (entriesData t)

/-- In TOML an empty table or array stands for no content, and items of a list that no field takes are passed
over. -/
def dialect : Dialect where
  isUnit
    | .record [] => true
    | .list [] => true
    | _ => false
  surplusItems := true

end TouchStream.Toml
