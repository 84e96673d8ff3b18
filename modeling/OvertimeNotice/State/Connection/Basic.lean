import OvertimeNotice.Files.Tree
import OvertimeNotice.State.DatabaseName

/-!
# Connections

A database in use. Its file may have others beside it: a journal, which keeps what a change
replaces until the change is done; a log, which keeps changes until the database is closed; the
index of the log; and a directory that stands for a lock.
-/

namespace OvertimeNotice

/-- The log of a database in use. -/
inductive LogState where
  /-- There is none, or it is not open yet. -/
  | closed
  /-- It is open, its index is not. -/
  | unindexed
  | opened
  /-- It is open to be read. -/
  | sealed
deriving DecidableEq, Repr

/-- A database in use. -/
structure Connection where
  name : DatabaseName
  /-- Where its file is, if it depends on what stands there. -/
  home? : Option Place
  /-- What was last seen in the file, with the changes in the log. -/
  content : Content
  log : LogState
  /-- The log holds changes. -/
  changed : Bool
  /-- There were no tables when the file was opened, so all that matters is in the log. -/
  fresh : Bool
  /-- There were no tables when a call last got to them. -/
  bare : Bool
  /-- The file was removed, and what stands in its place is another. -/
  astray : Bool
deriving DecidableEq

/-- The files, and a database in use among them. -/
structure World where
  files : Tree
  connection : Connection

/-- Something done in a world: it may fail, and what was done until then stays. -/
abbrev Call := ExceptT DatabaseFault (StateM World)

namespace Connection

/-- A database whose file, if it has one, never matters again. -/
def apart (name : DatabaseName) (content : Content) : Connection :=
  { name, home? := none, content, log := .closed, changed := false, fresh := false, bare := false
    astray := false }

/-- The database refuses changes. -/
def isReadOnly (c : Connection) : Bool := c.name.isReadOnly || c.log == .sealed

end Connection

namespace World

/-! ## Files beside the database -/

def journalEnding : String := "-journal"

def logEnding : String := "-wal"

def indexEnding : String := "-shm"

def lockEnding : String := ".lock"

/-- Whether a place can have a further ending. -/
def fits (home : Place) (ending : String) : Bool :=
  decide ((home.headD "").utf8ByteSize + ending.utf8ByteSize ≤ Path.maxNameSize)

/-- What stands at a place. -/
def look (q : Place) : Call (Option Node) := return (← get).files.node? q

/-- Gives a file a content, new or not. -/
def write (q : Place) (c : Content) : Call Unit :=
  modify fun w => { w with files := w.files.set q (.file c) }

/-- Removes a file, if there is one. -/
def discard (q : Place) : Call Unit :=
  modify fun w =>
    match w.files.node? q with
    | some (.file _) => { w with files := w.files.erase q }
    | _ => w

def see (c : Content) : Call Unit :=
  modify fun w => { w with connection := { w.connection with content := c } }

def setLog (s : LogState) : Call Unit :=
  modify fun w => { w with connection := { w.connection with log := s } }

/-- The world with nothing at a place nor below it. -/
def erase (q : Place) (w : World) : World :=
  let lost := w.connection.home?.any fun home => q.isSuffixOf home
  { files := w.files.erase q
    connection := { w.connection with astray := w.connection.astray || lost } }

end World

end OvertimeNotice
