import OvertimeNotice.State.Connection.Access

/-!
# Calls to a database in use

The operations of a database on one that stands among files. A call finds the database as it is
then, refuses to change what is only to be read, and writes nothing where nothing changes.

* `World.read`, `World.change`, `World.migrate`: the kinds of calls.
* `World.backend`: a database in use as a backend.
-/

namespace OvertimeNotice

namespace World

/-- The database as a call about a table finds it. Who knows of no tables asks for none, whatever
stands in the way of the file. -/
def meet : Call Database :=
  tryCatch enter fun f => do
    if (← get).connection.bare then return .blank else throw f

/-- A call that reads. -/
def read {α : Type} (f : Database → Except DatabaseFault α) : Call α := do
  let d ← meet
  match f d with
  | .error e => throw e
  | .ok a => return a

/-- A call that may change the database. -/
def change {α : Type} (f : Database → Except DatabaseFault (α × Database)) : Call α := do
  let d ← meet
  let c := (← get).connection
  if d ≠ .blank ∧ c.isReadOnly then throw .readOnly
  match f d with
  | .error e => throw e
  | .ok (a, d') =>
    if d' ≠ d then commit (c.content.withDatabase d')
    return a

/-- A call that may change the database and answers nothing. -/
def update (f : Database → Except DatabaseFault Database) : Call Unit :=
  change fun d => (f d).map fun d' => ((), d')

/-- The tables are made if there are none. -/
def migrate : Call Unit := do
  let known := (← get).connection
  if known.bare ∧ known.name.isReadOnly then throw .readOnly
  let d ← enter
  let c := (← get).connection
  if d = .blank then
    if c.isReadOnly then throw .readOnly else commit (c.content.withDatabase d.migrate)

/-- What a call answers, and the world after it. -/
def call {α : Type} (c : Call α) (w : World) : Except Failure α × World :=
  match c.run.run w with
  | (.ok a, w) => (.ok a, w)
  | (.error f, w) => (.error (.database f), w)

/-- A database in use as a backend. -/
def backend : Backend World where
  load m := call (read fun d => d.loadMarks m)
  upsert e := call (update fun d => d.upsertMark e)
  purge m := call (change fun d => d.purgeMarks m)

end World

end OvertimeNotice
