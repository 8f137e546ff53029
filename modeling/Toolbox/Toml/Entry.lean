import Toolbox.Toml.Value

/-!
# Tables under construction

A table is filled assignment by assignment and header by header. What may still be added to it
depends on how it came about: a header opens a table once, a dotted key extends only tables that
dotted keys made, and a table that exists only because a longer header passed through it may be
opened later. A value once assigned is closed.
-/

namespace Toolbox.Toml

/-- How a table came about. -/
inductive Origin where
  /-- The root, a table opened by its own header, or an element of an array of tables. -/
  | opened
  /-- A header passed through it on the way to a table below. -/
  | passed
  /-- A dotted key made it. -/
  | dotted
  deriving DecidableEq, Repr

/-- What stands under a key of a table under construction. -/
inductive Entry where
  | value (v : Value)
  | table (origin : Origin) (entries : List (String × Entry))
  /-- An array of tables, one for each `[[header]]`. -/
  | tables (elements : List (List (String × Entry)))
  deriving Repr, Inhabited

/-- The entries of a table under construction. -/
abbrev Entries := List (String × Entry)

namespace Entries

def get? (key : String) : Entries → Option Entry
  | [] => none
  | (k, e) :: rest => if k = key then some e else get? key rest

/-- The entries with `entry` under a key, in the place of what was there or else at the end. -/
def set (key : String) (entry : Entry) : Entries → Entries
  | [] => [(key, entry)]
  | (k, e) :: rest => if k = key then (key, entry) :: rest else (k, e) :: set key entry rest

/-- The table at the end of a path, changed by `change`, which learns how that table came about.
Tables that the path lacks are made on the way, by a dotted key when `dotted` and by a header
otherwise. In an array of tables the path goes on in the last element; it cannot go through a
value, and a dotted key cannot go through an opened table. -/
def changeAt (dotted : Bool) (change : Origin → Entries → Option Entries) :
    List String → Origin → Entries → Option Entries
  | [], origin, entries => change origin entries
  | key :: path, _, entries =>
    match entries.get? key with
    | none =>
      let origin := if dotted then .dotted else .passed
      (changeAt dotted change path origin []).map fun below => entries.set key (.table origin below)
    | some (.value _) => none
    | some (.table origin below) =>
      if dotted ∧ origin = .opened then none
      else
        (changeAt dotted change path origin below).map fun below =>
          entries.set key (.table origin below)
    | some (.tables elements) =>
      match elements.getLast? with
      | none => none
      | some last =>
        (changeAt dotted change path .opened last).map fun last =>
          entries.set key (.tables (elements.dropLast ++ [last]))

/-- One assignment, its key cut into the path and the last part. Only a dotted key may add to a
table that dotted keys made, and no key is assigned twice. -/
def assign (path : List String) (key : String) (v : Value) (entries : Entries) : Option Entries :=
  entries.changeAt true (fun origin below =>
    if origin = .dotted ↔ path = [] then none
    else if (get? key below).isSome then none
    else some (set key (.value v) below)) path .opened

def assignAll : List (List String × String × Value) → Entries → Option Entries
  | [], entries => some entries
  | (path, key, v) :: rest, entries => (entries.assign path key v).bind (assignAll rest)

/-- The table that a header opens, filled by `body`. A table may be opened once. -/
def openTable (path : List String) (key : String) (body : Entries → Option Entries)
    (entries : Entries) : Option Entries :=
  entries.changeAt false (fun _ below =>
    match get? key below with
    | none => (body []).map fun t => set key (.table .opened t) below
    | some (.table .passed t) => (body t).map fun t => set key (.table .opened t) below
    | some _ => none) path .opened

/-- A further element of an array of tables, filled by `body`. -/
def addElement (path : List String) (key : String) (body : Entries → Option Entries)
    (entries : Entries) : Option Entries :=
  entries.changeAt false (fun _ below =>
    match get? key below with
    | none => (body []).map fun t => set key (.tables [t]) below
    | some (.tables elements) => (body []).map fun t => set key (.tables (elements ++ [t])) below
    | some _ => none) path .opened

end Entries

mutual

def Entry.toValue : Entry → Value
  | .value v => v
  | .table _ entries => .table (finishEntries entries)
  | .tables elements => .array (finishTables elements)

def finishEntries : List (String × Entry) → List (String × Value)
  | [] => []
  | (key, e) :: rest => (key, e.toValue) :: finishEntries rest

def finishTables : List (List (String × Entry)) → List Value
  | [] => []
  | entries :: rest => .table (finishEntries entries) :: finishTables rest

end

end Toolbox.Toml
