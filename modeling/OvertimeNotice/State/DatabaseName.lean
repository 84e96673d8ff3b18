import OvertimeNotice.Files.Path
import OvertimeNotice.State.DatabaseAddress

/-!
# Names of databases

How a database is named: by the path of its file, or by an address with the path and options. The
empty path and `:memory:` name a database that lasts as long as it is open.

* `DatabaseName.ofText?`: the name of a text, or what is wrong with it.
* `DatabaseName.isTransient`, `DatabaseName.isReadOnly`, `DatabaseName.keepsLog`: what a name asks
  for.
-/

namespace OvertimeNotice

/-- What may be done with the file of a database. -/
inductive DatabaseAccess where
  /-- Use it, or make it if it is missing. -/
  | create
  /-- Use it. -/
  | update
  /-- Read it. -/
  | read
  /-- Nothing: the database is kept in memory. -/
  | memory
deriving DecidableEq, Repr

/-- Whether `asked` is more than what `held` allows. -/
def DatabaseAccess.exceeds (asked held : DatabaseAccess) : Bool :=
  match held, asked with
  | .read, .update | .read, .create | .update, .create => true
  | _, _ => false

/-- How the files of a database are kept. -/
inductive FileSystem where
  /-- Processes keep off each other by locks on the file. -/
  | ordinary
  /-- The file is left to one process. -/
  | exclusive
  /-- Processes keep off each other by a directory beside the file. -/
  | lockDirectory
  /-- Processes do not keep off each other. -/
  | unguarded
  /-- There are no files. -/
  | memory
deriving DecidableEq, Repr

namespace FileSystem

def names : List (String × FileSystem) :=
  [("unix", ordinary), ("unix-excl", exclusive), ("unix-dotfile", lockDirectory),
    ("unix-none", unguarded), ("memdb", memory)]

end FileSystem

/-- What a text says of a database. -/
structure DatabaseName where
  path : String
  access : DatabaseAccess
  system : FileSystem
  /-- Nobody changes the file. -/
  immutable : Bool
  /-- No locks are asked for. -/
  lockless : Bool
  /-- The index of a log is not written. -/
  indexReadOnly : Bool
  /-- The file whose mode a new file takes, which must be there. -/
  modeOf : Option String
deriving DecidableEq, Repr

namespace DatabaseName

/-- The database in the file at a path. -/
def plain (path : String) : DatabaseName :=
  { path, access := .create, system := .ordinary, immutable := false, lockless := false
    indexReadOnly := false, modeOf := none }

/-- A database without a path. -/
def isNameless (n : DatabaseName) : Bool :=
  n.path == "" || n.path == ":memory:" || n.access == .memory

/-- A database that lasts as long as it is open. -/
def isTransient (n : DatabaseName) : Bool := n.isNameless || n.system == .memory

/-- The database answers questions and refuses changes. -/
def isReadOnly (n : DatabaseName) : Bool := n.access == .read || (n.immutable && !n.isNameless)

/-- The system locks the file itself. -/
def locksFile (n : DatabaseName) : Bool := n.system == .ordinary || n.system == .exclusive

/-- Changes may be kept in a log. -/
def keepsLog (n : DatabaseName) : Bool := n.locksFile && !n.lockless && !n.immutable

/-- The index of the log is a file. -/
def hasIndexFile (n : DatabaseName) : Bool := n.system == .ordinary || n.access == .read

/-- The file is locked by a directory beside it. -/
def hasLockDirectory (n : DatabaseName) : Bool := n.system == .lockDirectory && !n.lockless

/-- The file can be locked against other changes: a lock on a file can be had only by whoever may
write to it. -/
def mayLock (n : DatabaseName) : Bool := n.access != .read || n.lockless || !n.locksFile

/-- The bytes that the path of a file in memory may have. -/
def maxMemoryPathSize : Nat := 1016

/-! ## Reading -/

def accesses : List (String × DatabaseAccess) :=
  [("ro", .read), ("rw", .update), ("rwc", .create), ("memory", .memory)]

/-- The access and the name of the system after one more option. An option may restrict the access
that options before it left, and not widen it. -/
def withOption (n : DatabaseAccess × String) (o : Bytes × Bytes) :
    Except DatabaseFault (DatabaseAccess × String) :=
  let value := (Bytes.text? o.2).getD ""
  if o.1 = Bytes.ofText "vfs" then .ok (n.1, value)
  else if o.1 = Bytes.ofText "cache" then
    if value = "shared" ∨ value = "private" then .ok n else .error (.unknownMode "cache" value)
  else if o.1 = Bytes.ofText "mode" then
    match accesses.lookup value with
    | none => .error (.unknownMode "access" value)
    | some access =>
      if access.exceeds n.1 then .error (.modeNotAllowed value) else .ok (access, n.2)
  else .ok n

/-- The name of an address. A path that is no text is read byte by byte. -/
def ofAddress? (a : DatabaseAddress) : Except DatabaseFault DatabaseName := do
  let (access, system) ← a.options.foldlM withOption (.create, "unix")
  match FileSystem.names.lookup system with
  | none => .error (.unknownSystem system)
  | some system =>
    .ok {
      access, system
      path := (Bytes.text? a.path).getD (String.ofList a.path.chars)
      immutable := a.isOn "immutable"
      lockless := a.isOn "nolock"
      indexReadOnly := a.isOn "readonly_shm"
      modeOf := (a.value? "modeof").map fun b => (Bytes.text? b).getD "" }

/-- The name that a text gives. -/
def ofText? (s : String) : Except DatabaseFault DatabaseName :=
  let b := Bytes.ofText s
  match b.idxOf? 0 with
  | some n => .error (.nulByte n)
  | none =>
    if (Bytes.ofText "file:").isPrefixOf b then
      (DatabaseAddress.ofBytes? (b.drop 5)).bind ofAddress?
    else .ok (plain s)

end DatabaseName

end OvertimeNotice
