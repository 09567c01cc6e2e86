/-
**Tables under construction.**

A settings file names tables in several ways: in a header of their own, on the way to the header of
another table, or before a dot in a key; and in the header of a list of tables.  What may still be
added to a table depends on how it came about, and nothing may be said twice.

Main definitions:

* `Toml.Node` — a value, a table or a list of tables, the latter two possibly still growing;
* `Toml.change?` — the table below a path, changed;
* `Toml.openTable?`, `Toml.openListed?` — what a header does;
* `Toml.insert?` — **what a key with its value does**;
* `Toml.Node.setting` — what has been built.
-/

import Timetable.Settings.Value

set_option autoImplicit false
set_option relaxedAutoImplicit false

namespace Timetable.Toml

/-! ### Nodes -/

/-- How a table came about. -/
inductive Origin where
  /-- By a header of its own. -/
  | header
  /-- On the way to the header of another table. -/
  | implied
  /-- Before a dot in a key. -/
  | dotted
  deriving Repr, DecidableEq

/-- **A part of a settings file under construction.** -/
inductive Node where
  /-- A value, to which nothing can be added. -/
  | value (v : Setting)
  /-- A table. -/
  | table (origin : Origin) (fields : List (String × Node))
  /-- A list of tables, of which the last one is still growing. -/
  | listed (tables : List (List (String × Node)))
  deriving Inhabited

/-- The fields of a table under construction. -/
abbrev Fields : Type := List (String × Node)

mutual

/-- What has been built. -/
def Node.setting : Node → Setting
  | .value v => v
  | .table _ fields => .table (settings fields)
  | .listed tables => .list (settingsOfTables tables)

/-- The named values of a table. -/
def settings : List (String × Node) → List (String × Setting)
  | [] => []
  | (name, n) :: rest => (name, n.setting) :: settings rest

/-- The tables of a list. -/
def settingsOfTables : List (List (String × Node)) → List Setting
  | [] => []
  | fields :: rest => .table (settings fields) :: settingsOfTables rest

end

/-! ### Changes -/

/-- **The table below a path, changed.**  Tables on the way that do not exist come about with the
given origin; a list of tables leads to its last one; a value leads nowhere, and a key does not lead
into a table with a header of its own. -/
def change? (via : Origin) (f : Origin → Fields → Option Fields) :
    List String → Origin → Fields → Option Fields
  | [], origin, fields => f origin fields
  | name :: path, _, fields =>
    match fields.lookup name with
    | none =>
      (change? via f path via []).map fun sub => Setting.put name (.table via sub) fields
    | some (.value _) => none
    | some (.listed tables) =>
      (change? via f path .header (tables.getLast?.getD [])).map fun sub =>
        Setting.put name (.listed (tables.dropLast ++ [sub])) fields
    | some (.table origin sub) =>
      if via = .dotted ∧ origin = .header then none
      else
        (change? via f path origin sub).map fun sub =>
          Setting.put name (.table origin sub) fields

/-- The header of a table: the table is new, or was only on the way to others. -/
def openTable? (path : List String) (name : String) (root : Fields) : Option Fields :=
  change? .implied
    (fun _ fields =>
      match fields.lookup name with
      | none => some (Setting.put name (.table .header []) fields)
      | some (.table .implied sub) => some (Setting.put name (.table .header sub) fields)
      | some _ => none)
    path .header root

/-- The header of a list of tables: one more table is begun. -/
def openListed? (path : List String) (name : String) (root : Fields) : Option Fields :=
  change? .implied
    (fun _ fields =>
      match fields.lookup name with
      | none => some (Setting.put name (.listed [[]]) fields)
      | some (.listed tables) => some (Setting.put name (.listed (tables ++ [[]])) fields)
      | some _ => none)
    path .header root

/-- **A key with its value** in a table: the key is new, and the tables before its dots come from
keys. -/
def insert? (path : List String) (name : String) (v : Setting) (fields : Fields) :
    Option Fields :=
  change? .dotted
    (fun origin fields =>
      if (!path.isEmpty && origin != .dotted) || (fields.lookup name).isSome then none
      else some (Setting.put name (.value v) fields))
    path .header fields

/-- A key with its value in the table of a header. -/
def insertBelow? (header : List String) (path : List String) (name : String) (v : Setting)
    (root : Fields) : Option Fields :=
  change? .implied (fun _ fields => insert? path name v fields) header .header root

end Timetable.Toml
