import OvertimeNotice.State.Connection.Basic

/-!
# The log of a database

A log can be used once its index is there. Where the index cannot be written, the log is only read.
-/

namespace OvertimeNotice

namespace World

/-- The bytes that a log starts with before the first change. -/
def logHeaderSize : Nat := 32

/-- Opens the log to be read, without an index of one's own. -/
def sealLog (home : Place) : Call Unit := do
  match ← look (home.beside logEnding) with
  | some (.file (.bytes b)) => if logHeaderSize ≤ b.size then throw .unsettled
  | _ => pure ()
  setLog .sealed

/-- Opens the index of the log. -/
def openIndex (home : Place) : Call Unit := do
  let name := (← get).connection.name
  let index := home.beside indexEnding
  if !name.hasIndexFile then setLog .opened
  else
    match ← look index, name.indexReadOnly with
    | some .directory, _ | some (.file _), true => sealLog home
    | none, true => throw .cannotOpenFile
    | _, false =>
      write index .logged
      setLog .opened

/-- Opens the log, which is made if it is missing. -/
def openLog (home : Place) : Call Unit := do
  let log := home.beside logEnding
  if !(← get).connection.name.keepsLog then throw .cannotOpenFile
  else if (← look home).isNone then throw .unreadable
  else if !fits home logEnding then throw .cannotOpenFile
  else
    match ← look log with
    | some .directory => throw .cannotOpenFile
    | some (.file _) => pure ()
    | none => write log .nothing
    setLog .unindexed
    openIndex home

/-- Writes a change to the log. A log that was removed is still open. -/
def extend (home : Place) (c : Content) : Call Unit := do
  let log := home.beside logEnding
  if let some (.file _) ← look log then write log .logged
  see c
  modify fun w => { w with connection := { w.connection with changed := true } }

end World

end OvertimeNotice
