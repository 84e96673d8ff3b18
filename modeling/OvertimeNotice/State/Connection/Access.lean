import OvertimeNotice.State.Connection.Log

/-!
# Access to a database in use

What another process left beside a database is put in order before each call, and a call fails if
that cannot be done. A change goes to the log if it is open, and to the file itself if it is not.

* `World.enter`: what is put in order before a call, and what the call then finds.
* `World.commit`: how a change is kept.
-/

namespace OvertimeNotice

namespace World

/-! ## Before a call -/

/-- Waits for no other process: another one that holds the file is a fault. -/
def lock (home : Place) : Call Unit := do
  if (← get).connection.name.hasLockDirectory then
    if (← look (home.beside lockEnding)).isSome then throw .locked
    else if !fits home lockEnding || (← look home.tail) != some .directory then throw .unreadable

/-- Looks at the file again. A file that was removed stays what it was to whoever has it open. -/
def refresh (home : Place) : Call Unit := do
  if !(← get).connection.astray then
    match ← look home with
    | some (.file c) => see c
    | _ => pure ()

/-- Whether somebody is taken to be at work with the journal: whoever locks by a directory takes
the lock for another's. -/
def journalIsHeld (n : DatabaseName) (home : Place) : Call Bool := do
  return n.system == .lockDirectory &&
    (!n.lockless || (← look (home.beside lockEnding)).isSome)

/-- Puts back what a journal that was left behind kept. -/
def settleJournal (home : Place) : Call Unit := do
  let c := (← get).connection
  let journal := home.beside journalEnding
  if !(← journalIsHeld c.name home) then
    match ← look journal with
    | none => pure ()
    | some .directory => if !c.content.isEmpty then throw .unreadable
    | some (.file kept) =>
      if kept.isVoid then pure ()
      else if c.content.isEmpty then
        if c.name.mayLock then discard journal
      else if (← look home).isNone then throw .unreadable
      else if kept.isHot then
        if c.name.isReadOnly then throw .readOnly else discard journal

/-- Opens a log that was left behind; beside an empty file it means nothing. -/
def settleLog (home : Place) : Call Unit := do
  let empty := (← get).connection.content.isEmpty
  match ← look (home.beside logEnding) with
  | none => pure ()
  | some .directory => if empty then throw .unreadable else openLog home
  | some (.file kept) =>
    if !kept.isVoid then
      if empty then discard (home.beside logEnding) else openLog home

/-- Whether what is needed of the file is no longer there, although its log is open: other bytes
were written to it. -/
def isSpoilt (c : Connection) : Option Node → Bool
  | some (.file (.bytes b)) =>
    match c.content with
    | .database .. => !c.astray && (!c.fresh || (!c.changed && decide (b.size ≤ 1)))
    | .bytes _ => false
  | _ => false

/-- The database that is seen. -/
def seen : Call Database := do
  match (← get).connection.content.database? with
  | some d => return d
  | none => throw .notDatabase

/-- Puts in order what stands beside the database. -/
def settle : Call Unit := do
  let c := (← get).connection
  match c.home?, c.log with
  | some home, .closed =>
    lock home
    refresh home
    settleJournal home
    settleLog home
    let _ ← seen
    let c := (← get).connection
    if c.log = .closed ∧ c.content.isLogged then openLog home
  | some home, .unindexed => openIndex home
  | some home, .opened | some home, .sealed =>
    if isSpoilt c (← look home) then throw .malformed
  | none, _ => pure ()

/-- The database as a call finds it, once what stands beside it is in order. -/
def enter : Call Database := do
  settle
  let d ← seen
  modify fun w => { w with connection := { w.connection with bare := d == .blank } }
  return d

/-! ## Changes -/

/-- Changes the file itself. What is replaced is kept in a journal until that is done. Where files
are locked, it is noticed that a file is no longer in its place. -/
def replace (home : Place) (c : Content) : Call Unit := do
  let now := (← get).connection
  let journal := home.beside journalEnding
  let node ← look home
  if (node.isNone || now.astray) && now.name.locksFile && !now.content.isEmpty then throw .readOnly
  else if node.isNone then throw .unreadable
  else if !fits home journalEnding || (← look journal) = some .directory then
    throw .cannotOpenFile
  else
    discard journal
    if node != some .directory && !now.astray then write home c
    see c

/-- Keeps another content. -/
def commit (c : Content) : Call Unit := do
  let now := (← get).connection
  match now.home? with
  | none => see c
  | some home => if now.log = .closed then replace home c else extend home c
  modify fun w => { w with
    connection := { w.connection with bare := c.database? == some .blank } }

/-- Asks for a log. -/
def startLog : Call Unit := do
  let d ← enter
  let c := (← get).connection
  if c.home?.isSome ∧ c.log = .closed ∧ c.name.keepsLog then
    if c.isReadOnly then throw .readOnly else commit (.database d true)

end World

end OvertimeNotice
