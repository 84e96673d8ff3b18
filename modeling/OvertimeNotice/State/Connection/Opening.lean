import OvertimeNotice.State.Connection.Access

/-!
# Opening and closing databases

A database is opened by its name. Where a log can be kept it is asked for at once, and what it holds
goes to the file when the database is closed.

* `World.connect?`, `World.close`: the two ends.
-/

namespace OvertimeNotice

namespace World

-- Sums start from the zero of the core library, whatever else is in scope.
attribute [local instance (high)] Zero.ofOfNat0

/-- The bytes that the whole path of a database may have. -/
def maxPathSize : Nat := 512

/-- The bytes that the path of the working directory counts for. -/
def workingSize : Nat := 15

/-- The bytes of the whole path of a place. -/
def pathSize (q : Place) : Nat :=
  (if q.getLast? = some Path.root then 0 else workingSize) +
    ((q.filter Path.isPlain).map fun s => s.utf8ByteSize + 1).sum

/-- The place one step further in the path of a database, which is taken as it is spelled: two dots
take back the name before them, whatever that stands for. A name cannot lie below a file. -/
def spell? (t : Tree) (q : Place) (s : String) : Option Place :=
  if !Path.isPlain s then some (q.follow s)
  else if maxPathSize ≤ pathSize q + s.utf8ByteSize + 1 then none
  else
    match t.node? q with
    | some (.file _) => none
    | some .directory =>
      if Path.maxNameSize < s.utf8ByteSize then none else some (q.follow s)
    | none => some (q.follow s)

/-- Where the file of a database is. -/
def home? (t : Tree) (path : String) : Option Place := do
  let q ← (Path.ofText path).foldlM (spell? t) []
  if q = [Path.root] ∨ maxPathSize < pathSize q + journalEnding.utf8ByteSize then none else some q

/-- Whether the file whose mode a new file should take is there. -/
def hasMode (t : Tree) (n : DatabaseName) : Bool :=
  match n.modeOf with
  | none => true
  | some path =>
    match t.locate (Path.ofText path) with
    | .ok q => (t.node? q).isSome
    | .error _ => false

/-- The content of the file of a database, and the files with it: it is made if it is missing and
may be made. -/
def openFile (t : Tree) (text : String) (n : DatabaseName) (home : Place) :
    Except DatabaseFault (Content × Tree) :=
  if !hasMode t n then .error .unreadable
  else
    match t.node? home with
    | some (.file c) => .ok (c, t)
    | some .directory => .error (if n.access = .read then .unreadable else .cannotOpen text)
    | none =>
      if n.access = .create ∧ t.node? home.tail = some .directory then
        .ok (.nothing, t.set home (.file .nothing))
      else .error (.cannotOpen text)

/-- The world with the database that a text names, as it is found. -/
def attach? (t : Tree) (text : String) : Except DatabaseFault World := do
  let name ← DatabaseName.ofText? text
  if name.isTransient then
    if !name.isNameless ∧ DatabaseName.maxMemoryPathSize < name.path.utf8ByteSize then
      .error (.cannotOpen text)
    else .ok { files := t, connection := .apart name .nothing }
  else
    match home? t name.path with
    | none => .error (.cannotOpen text)
    | some home =>
      let (content, files) ← openFile t text name home
      if name.immutable then .ok { files, connection := .apart name content }
      else
        .ok {
          files
          connection := {
            name, content
            home? := some home
            log := .closed
            changed := false
            fresh := content.database? == some .blank
            bare := false
            astray := false } }

/-- The world with the database that a text names, in use. A log is asked for; the database can be
used without. -/
def connect? (t : Tree) (text : String) : Except DatabaseFault World :=
  (attach? t text).map fun w => (startLog.run.run w).2

/-- Brings the changes from the log to the file, and removes the log and its index. A file that was
written to meanwhile is not made whole by the changes alone. -/
def finish (home : Place) : Call Unit := do
  let c := (← get).connection
  if c.changed && !c.astray then
    match ← look home with
    | some (.file (.bytes _)) => write home (if c.fresh then c.content else .logged)
    | some (.file (.database ..)) => write home c.content
    | _ => pure ()
  discard (home.beside logEnding)
  if c.name.hasIndexFile then discard (home.beside indexEnding)

/-- The files once the database is closed. An open log is given up, if it can be locked. -/
def close (w : World) : Tree :=
  let c := w.connection
  match c.home?, c.log with
  | some home, .opened =>
    if c.name.access = .read then w.files else ((finish home).run.run w).2.files
  | _, _ => w.files

end World

end OvertimeNotice
