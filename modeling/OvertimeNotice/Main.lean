import OvertimeNotice.Runner
import OvertimeNotice.State.DatabaseText
import Std.Time.Zoned

/-!
# Command line

The program: it reads the files that an invocation may use into a tree, runs the invocation on the
tree, prints what the invocation shows, and writes back what has changed. What an invocation does
after it has printed depends on what its streams took, so the end of it is known only then.

    overtime-notice --data-dir ./data --db state.db
    overtime-notice --data-dir ./data --state-backend file --state-dir ./notified_flags
    overtime-notice --now 2026-10-16T21:30 --cache-dir ./cache
-/

namespace OvertimeNotice

namespace CommandLine

/-- The node at a place of this machine. -/
def readNode (t : Tree) (q : Place) : IO Tree := do
  let file := (← IO.currentDir) / q.toText
  if q.isTop then return t
  else if ← file.isDir then
    return if t.node? q = some .directory then t else t.set q .directory
  else if ← file.pathExists then return t.set q (.file (.bytes (← IO.FS.readBinFile file)))
  else return t

/-- The nodes along a path. -/
def readAlong (t : Tree) (p : Path) : IO Tree := do
  let mut t := t
  for n in List.range p.length do
    t ← readNode t (Path.place (p.take (n + 1)))
  return t

/-- The nodes in the directory that a path leads to, if it is one. -/
def readIn (t : Tree) (p : Path) : IO Tree := do
  let mut t ← readAlong t p
  let directory := (← IO.currentDir) / p.place.toText
  if ← directory.isDir then
    for entry in ← directory.readDir do
      t ← readNode t (entry.fileName :: p.place)
  return t

/-- The database that a name stands for, and what is beside it. -/
def readDatabase (t : Tree) (name : String) : IO Tree := do
  match DatabaseName.ofText? name with
  | .error _ => return t
  | .ok n =>
    let home := (Path.ofText n.path).place
    let mut t ← readAlong t (Path.ofText n.path)
    if let some mode := n.modeOf then t ← readAlong t (Path.ofText mode)
    for ending in [World.journalEnding, World.logEnding, World.indexEnding, World.lockEnding] do
      t ← readNode t (home.beside ending)
    match t.node? home with
    | some (.file (.bytes b)) => return t.set home (.file (.ofBytes b))
    | _ => return t

/-- The files that an invocation may use. -/
def readTree (s : Settings) : IO Tree := do
  let data := Path.ofText s.dataDir
  let mut t := Tree.empty
  for p in [data, data.child "config", data.child "monthly", Path.ofText s.stateDir,
      Path.ofText s.cacheDir] do
    t ← readIn t p
  readDatabase t s.database

/-- Makes the node at a place the one of the tree. -/
def writeNode (q : Place) : Node → IO Unit
  | .directory => IO.FS.createDirAll q.toText
  | .file content => IO.FS.writeBinFile q.toText content.toBytes

/-- Writes what `new` has and `old` has not, and removes what it has no more. -/
def writeChanges (old new : Tree) : IO Unit := do
  for e in new.nodes do
    if old.node? e.1 ≠ some e.2 then writeNode e.1 e.2
  for e in old.nodes do
    if new.node? e.1 = none then IO.FS.removeFile e.1.toText

/-- The moment on the clock of this machine. -/
def clock? : IO (Option Moment) := do
  let now ← Std.Time.PlainDateTime.now
  return do
    let date ← Date.of? now.date.year.toInt now.date.month.val.toNat now.date.day.val.toNat
    Moment.of? date now.time.hour.val.toNat now.time.minute.val.toNat now.time.second.val.toNat

/-- A random identifier. -/
def newRunId : IO String := do
  return Runner.runId ((← IO.getRandomBytes 16).toList.map UInt8.toNat)

/-- Writes lines to a stream until it refuses one. -/
def printTo (stream : IO.FS.Stream) (lines : List String) : IO (Option Refusal) := do
  let mut taken := 0
  for line in lines do
    try
      stream.putStr (line ++ "\n")
      stream.flush
    catch e => return some { lines := taken, piece := 0, words := toString e }
    taken := taken + 1
  return none

/-- One invocation. -/
def run (args : List String) : IO UInt32 := do
  let settings := Settings.ofArguments args
  let some clock ← clock? | throw (IO.userError "the clock shows no date")
  let tree ← readTree settings
  let runId ← newRunId
  let invokeTo (o : Console) := Runner.invokeTo o settings clock runId tree
  let stdout ← printTo (← IO.getStdout) (invokeTo .willing).1.stdout
  let stderr ← printTo (← IO.getStderr) (invokeTo { stdout, stderr := none }).1.stderr
  let (invocation, changed) := invokeTo { stdout, stderr }
  writeChanges tree changed
  return UInt32.ofNat invocation.exitCode

end CommandLine

end OvertimeNotice

def main (args : List String) : IO UInt32 := OvertimeNotice.CommandLine.run args
