import QueryPlanner.Toml.Basic

/-!
# Tables from statements

The statements of a document may build a table from several places: under its own header, under
headers of tables within it, and by dotted keys.  Each table may be defined only once, so while the
document is assembled a table remembers how it came to be.

* `Toml.Draft` — a document under construction
* `Toml.assignAll` — the entries of one table
* `Toml.assemble` — the table of a whole document
-/

namespace QueryPlanner

namespace Toml

/-- How a table came to be. -/
inductive Origin where
  /-- It has a header of its own. -/
  | explicit
  /-- A header of a table within it needs it. -/
  | implied
  /-- A dotted key needs it. -/
  | dotted
  deriving DecidableEq

/-- A part of a document under construction. -/
inductive Draft where
  /-- A value is complete: nothing can be added to it. -/
  | value (v : Toml)
  | table (origin : Origin) (entries : List (String × Draft))
  /-- An array of tables, each with a header of its own. -/
  | tables (members : List (List (String × Draft)))

/-- The entries of a table under construction. -/
abbrev Entries := List (String × Draft)

mutual

/-- What has been built so far. -/
def Draft.finish : Draft → Toml
  | .value v => v
  | .table _ entries => .table (finishEntries entries)
  | .tables members => .array (finishMembers members)

/-- The entries that have been built so far. -/
def finishEntries : List (String × Draft) → List (String × Toml)
  | [] => []
  | (k, d) :: rest => (k, d.finish) :: finishEntries rest

/-- The tables that have been built so far. -/
def finishMembers : List (List (String × Draft)) → List Toml
  | [] => []
  | entries :: rest => .table (finishEntries entries) :: finishMembers rest

end

namespace Entries

/-- Put another draft in the place of the one of a key. -/
def set (key : String) (d : Draft) (entries : Entries) : Entries :=
  entries.map fun e => if e.1 = key then (key, d) else e

/-- Add an entry of a new key. -/
def add? (key : String) (d : Draft) (entries : Entries) : Option Entries :=
  if (entries.lookup key).isSome then none else some (entries ++ [(key, d)])

/-- Change the table at the end of a path, which starts from a table of the given origin.  Tables
on the way are made if they are missing, of an array of tables the last one counts, and a value
ends the way.  A dotted key does not lead into a table that has a header. -/
def within (dotted : Bool) (change : Origin → Entries → Option Entries) (origin : Origin)
    (path : List String) (entries : Entries) : Option Entries :=
  match path with
  | [] => change origin entries
  | key :: path =>
    match entries.lookup key with
    | none => do
      let origin := if dotted then Origin.dotted else Origin.implied
      let inner ← within dotted change origin path []
      some (entries ++ [(key, .table origin inner)])
    | some (.table origin inner) => do
      if dotted ∧ origin = .explicit then none
      let inner ← within dotted change origin path inner
      some (set key (.table origin inner) entries)
    | some (.tables members) => do
      let last ← members.getLast?
      let inner ← within dotted change .explicit path last
      some (set key (.tables (members.dropLast ++ [inner])) entries)
    | some (.value _) => none

end Entries

/-- A key and its value; the key leads through the tables of its path. -/
structure Assignment where
  path : List String
  key : String
  value : Toml

/-- The entries of a table with one more.  The last table on the way must be one that dotted keys
made, or the table itself if there is none on the way. -/
def assign (entries : Entries) (a : Assignment) : Option Entries :=
  entries.within true
    (fun origin inner =>
      if (origin = .dotted ↔ a.path = []) then none else inner.add? a.key (.value a.value))
    .explicit a.path

/-- The entries of a table with more of them, in order. -/
def assignAll (entries : Entries) (assignments : List Assignment) : Option Entries :=
  assignments.foldlM assign entries

/-- The table that is written between braces. -/
def ofAssignments (assignments : List Assignment) : Option Toml :=
  (assignAll [] assignments).map fun entries => .table (finishEntries entries)

/-- A header: the path to its table, and whether it adds to an array of tables. -/
structure Header where
  path : List String
  key : String
  inArray : Bool

/-- A statement of a document. -/
inductive Statement where
  | header (h : Header)
  | assignment (a : Assignment)

/-- The assignments before the first header, and those under each header. -/
def sections : List Statement → List Assignment × List (Header × List Assignment)
  | [] => ([], [])
  | .assignment a :: rest => (a :: (sections rest).1, (sections rest).2)
  | .header h :: rest => ([], (h, (sections rest).1) :: (sections rest).2)

/-- Put the table of a header in its place.  A header may complete a table that other headers imply,
and no other. -/
def place (root : Entries) (h : Header) (assignments : List Assignment) : Option Entries :=
  root.within false
    (fun _ inner =>
      match inner.lookup h.key, h.inArray with
      | none, false => do
        let entries ← assignAll [] assignments
        inner.add? h.key (.table .explicit entries)
      | some (.table .implied sofar), false => do
        let entries ← assignAll sofar assignments
        some (inner.set h.key (.table .explicit entries))
      | none, true => do
        let entries ← assignAll [] assignments
        inner.add? h.key (.tables [entries])
      | some (.tables members), true => do
        let entries ← assignAll [] assignments
        some (inner.set h.key (.tables (members ++ [entries])))
      | _, _ => none)
    .explicit h.path

/-- The table of a whole document. -/
def assemble (statements : List Statement) : Option Toml := do
  let (leading, parts) := sections statements
  let root ← assignAll [] leading
  let root ← parts.foldlM (fun root part => place root part.1 part.2) root
  some (.table (finishEntries root))

end Toml

end QueryPlanner
