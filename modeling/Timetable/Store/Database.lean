/-
**Guarded stores.**

A database is a store together with the writes that it refuses.  A statement that would make a
refused write fails as a whole and leaves everything as it was.

Main definitions:

* `Database` — a store and the writes that it refuses;
* `Database.access` — **a statement against a database**.

Main results:

* `Database.access_of_refused_nil` — a database that refuses nothing behaves like its store.
-/

import Timetable.Store.Statement

set_option autoImplicit false
set_option relaxedAutoImplicit false

namespace Timetable

/-- **A store and the writes that it refuses.** -/
structure Database where
  /-- The tables. -/
  store : Store := {}
  /-- The writes that are refused. -/
  refused : List Statement.Write := []
  deriving Repr, DecidableEq

namespace Database

/-- Some of the writes are refused. -/
def refuses (d : Database) (writes : List Statement.Write) : Bool :=
  writes.any (d.refused.contains ·)

/-- **A statement against a database.** -/
def access {α : Type} (st : Statement α) (d : Database) : Except AccessError α × Database :=
  if d.refuses (st.writes d.store) then (.error .refused, d)
  else
    let (answer, store) := st.run d.store
    (answer, { d with store })

/-- A database that refuses nothing behaves like its store. -/
theorem access_of_refused_nil {α : Type} (st : Statement α) (s : Store) :
    access st { store := s } = ((st.run s).1, { store := (st.run s).2 }) := by
  simp [access, refuses]

end Database

end Timetable
