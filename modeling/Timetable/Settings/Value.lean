/-
**Values of settings.**

Settings come from a file and from the environment, and both give values of the same kind: flags,
numbers, texts, lists and tables.  What the environment says is put over what the file says, table
by table.

Main definitions:

* `Setting` — values of settings;
* `Setting.put` — a table with one name set;
* `Setting.overlay` — **one value put over another**;
* `Setting.nested` — a value below a path of names.

Main results:

* `Setting.lookup_put_self`, `Setting.lookup_put_of_ne` — what setting a name changes.
-/

import Timetable.Text.Decimal

set_option autoImplicit false
set_option relaxedAutoImplicit false

namespace Timetable

/-! ### Values -/

/-- **A value of a setting.** -/
inductive Setting where
  /-- A truth value. -/
  | flag (b : Bool)
  /-- A whole number. -/
  | number (n : Int)
  /-- A number that is not whole; no setting takes one. -/
  | fraction
  /-- A text. -/
  | text (s : String)
  /-- A date or a time; no setting takes one. -/
  | moment
  /-- A list of values. -/
  | list (items : List Setting)
  /-- Named values. -/
  | table (fields : List (String × Setting))
  deriving Repr, Inhabited

namespace Setting

/-! ### Tables -/

/-- **Named values with one name set**; a name keeps its place. -/
def put {α : Type} (name : String) (v : α) : List (String × α) → List (String × α)
  | [] => [(name, v)]
  | (k, w) :: rest => if k = name then (name, v) :: rest else (k, w) :: put name v rest

/-- The name that was set has the value it was set to. -/
@[simp] theorem lookup_put_self {α : Type} (name : String) (v : α) (fields : List (String × α)) :
    (put name v fields).lookup name = some v := by
  induction fields with
  | nil => simp [put]
  | cons f rest ih =>
    obtain ⟨k, w⟩ := f
    by_cases h : k = name
    · simp [put, h]
    · have h' : (name == k) = false := by simpa using Ne.symm h
      simp [put, h, List.lookup_cons, h', ih]

/-- All other names keep their values. -/
theorem lookup_put_of_ne {α : Type} {name other : String} (v : α) (fields : List (String × α))
    (h : other ≠ name) : (put name v fields).lookup other = fields.lookup other := by
  induction fields with
  | nil =>
    have h' : (other == name) = false := by simpa using h
    simp [put, List.lookup_cons, h']
  | cons f rest ih =>
    obtain ⟨k, w⟩ := f
    by_cases hk : k = name
    · have h' : (other == name) = false := by simpa using h
      simp [put, hk, List.lookup_cons, h']
    · simp only [put, hk, if_false, List.lookup_cons]
      rw [ih]

mutual

/-- **One value put over another**: tables are joined name by name, and anything else is
replaced. -/
def overlay (base : Setting) : Setting → Setting
  | table ys =>
    match base with
    | table xs => table (overlayFields xs ys)
    | _ => table ys
  | flag b => flag b
  | number n => number n
  | fraction => fraction
  | text s => text s
  | moment => moment
  | list items => list items

@[inherit_doc overlay]
def overlayFields (xs : List (String × Setting)) : List (String × Setting) → List (String × Setting)
  | [] => xs
  | (name, w) :: ys =>
    match xs.lookup name with
    | some v => overlayFields (put name (overlay v w) xs) ys
    | none => overlayFields (put name w xs) ys

end

/-- A value below a path of names. -/
def nested (v : Setting) : List String → Setting
  | [] => v
  | name :: path => table [(name, nested v path)]

end Setting

end Timetable
