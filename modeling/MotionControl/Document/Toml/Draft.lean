import MotionControl.Document.Value

/-!
# Tables of a TOML document under construction

A table may be written in pieces: by headers, by dotted keys and by arrays of
tables.  How a table came about decides what may still be added to it.

- `Draft`: a value, a table with its origin, or an array of tables.
- `extend`: adds to the table at the end of a path, creating tables on the way.
- `insertKey`: one `key = value` line; no key is written twice.
- `openTable?`, `closeTable`: what a header continues, and where its table goes.
-/

namespace MotionControl

namespace Document.Toml

/-- How a table came about. -/
inductive Origin where
  /-- Named by its own header. -/
  | header
  /-- Passed through by a longer header. -/
  | passedThrough
  /-- Passed through by a dotted key. -/
  | dottedKey
  deriving DecidableEq, Repr

/-- A part of a document that is still being written. -/
inductive Draft where
  /-- A finished value; nothing can be added to it. -/
  | value (v : Value)
  | table (origin : Origin) (entries : List (String × Draft))
  /-- Tables under one repeated header; the last one is open. -/
  | tables (items : List (List (String × Draft)))

/-- The entries of a table that is not finished, in their order. -/
abbrev Entries := List (String × Draft)

/-- Writes an entry in its place, or at the end if the key is new. -/
def put (key : String) (draft : Draft) : Entries → Entries
  | [] => [(key, draft)]
  | (k, d) :: rest => if k = key then (k, draft) :: rest else (k, d) :: put key draft rest

/-- Applies `change` to the table at the end of `path`.

`byKey` tells whether a dotted key or a header walks the path.  A dotted key may
not enter a table that has a header of its own; nothing enters a finished value;
an array of tables is entered at its last table. -/
def extend (byKey : Bool) (change : Origin → Entries → Option Entries) :
    List String → Origin → Entries → Option Entries
  | [], origin, entries => change origin entries
  | key :: path, _, entries =>
    match lookup key entries with
    | none => do
      let origin := if byKey then .dottedKey else .passedThrough
      let sub ← extend byKey change path origin []
      pure (put key (.table origin sub) entries)
    | some (.table origin sub) =>
      if byKey ∧ origin = .header then none
      else do
        let sub ← extend byKey change path origin sub
        pure (put key (.table origin sub) entries)
    | some (.tables items) => do
      let last ← items.getLast?
      let last ← extend byKey change path .header last
      pure (put key (.tables (items.dropLast ++ [last])) entries)
    | some (.value _) => none

/-- One `key = value` line, the key split at its dots.  A table made by dotted keys
takes only dotted keys, and any other table only keys of its own. -/
def insertKey (path : List String) (key : String) (value : Value) (entries : Entries) :
    Option Entries :=
  extend true (fun origin entries =>
      if (origin = .dottedKey) ≠ (path ≠ []) then none
      else if (lookup key entries).isSome then none
      else some (entries ++ [(key, .value value)]))
    path .header entries

/-- The draft at the end of a path that a header walks; the inner `none` means that
there is none yet. -/
def locate : List String → String → Entries → Option (Option Draft)
  | [], key, entries => some (lookup key entries)
  | step :: path, key, entries =>
    match lookup step entries with
    | none => some none
    | some (.table _ sub) => locate path key sub
    | some (.tables items) => items.getLast?.bind (locate path key)
    | some (.value _) => none

/-- What a table header continues: nothing yet, or a table that was only passed
through.  No table is named twice. -/
def openTable? (path : List String) (key : String) (root : Entries) : Option Entries :=
  match locate path key root with
  | some none => some []
  | some (some (.table .passedThrough entries)) => some entries
  | _ => none

/-- Puts the finished table of a header in its place. -/
def closeTable (path : List String) (key : String) (entries root : Entries) : Option Entries :=
  extend false (fun _ parent => some (put key (.table .header entries) parent)) path .header root

/-- Adds the finished table of a repeated header to its array. -/
def closeRepeated (path : List String) (key : String) (entries root : Entries) :
    Option Entries :=
  extend false (fun _ parent =>
      match lookup key parent with
      | none => some (put key (.tables [entries]) parent)
      | some (.tables items) => some (put key (.tables (items ++ [entries])) parent)
      | some _ => none)
    path .header root

mutual

/-- The value that a draft ends up as. -/
def Draft.finish : Draft → Value
  | .value v => v
  | .table _ entries => .table (finishEntries entries)
  | .tables items => .list (finishTables items)

/-- The entries of a table as they stand in the end. -/
def finishEntries : List (String × Draft) → List (String × Value)
  | [] => []
  | (key, draft) :: rest => (key, draft.finish) :: finishEntries rest

/-- The tables of an array as they stand in the end. -/
def finishTables : List (List (String × Draft)) → List Value
  | [] => []
  | entries :: rest => .table (finishEntries entries) :: finishTables rest

end

end Document.Toml

end MotionControl
