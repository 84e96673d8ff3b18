import OvertimeNotice.Files.Branch

/-!
# File trees

The files and directories that an invocation sees. Every step of a path is taken from a directory:
what is asked of a path fails at the first thing on the way that is missing or is no directory.
Before any step, a path fails that no text of a path can be.
-/

namespace OvertimeNotice

/-- What is in the working directory. Directories above it and the root stand there under their
own names. -/
structure Tree where
  entries : List (String × Branch)

namespace Tree

def empty : Tree := ⟨[]⟩

def root (t : Tree) : Branch := .directory t.entries

/-- All that stands in the tree, by place. -/
def nodes (t : Tree) : List (Place × Node) :=
  (Branch.nodesOfEntries [] t.entries).filter fun e => !e.1.isTop

/-- What stands at a place and below it. The working directory and those above it are always
there. -/
def branch? (t : Tree) (q : Place) : Option Branch :=
  match Branch.find? q.reverse t.root with
  | some (.directory es) => some (.directory es)
  | b => if q.isTop then some (.directory []) else b

/-- What stands at a place. -/
def node? (t : Tree) (q : Place) : Option Node := (t.branch? q).map Branch.node

/-- The tree with `n` at a place and directories above it, whatever stood there. -/
def set (t : Tree) (q : Place) (n : Node) : Tree :=
  ⟨(Branch.put (.ofNode n) q.reverse t.root).entries⟩

/-- The tree with nothing at a place nor below it. -/
def erase (t : Tree) (q : Place) : Tree :=
  if (t.branch? q).isNone then t else ⟨(Branch.drop q.reverse t.root).entries⟩

/-- The names in a directory. -/
def names (t : Tree) (q : Place) : List String :=
  match t.branch? q with
  | some (.directory es) => (es.map Prod.fst).filter Path.isPlain
  | _ => []

/-! ## Ways -/

/-- How far a way has been gone: a place and what stands there. -/
abbrev Stand := Place × Option Branch

/-- One step further, which can only be taken from a directory. -/
def step (t : Tree) (w : Stand) (s : String) : Except FileFault Stand :=
  match w.2 with
  | none => .error .missing
  | some (.file _) => .error .notDirectory
  | some (.directory es) =>
    if Path.isPlain s then
      if Path.maxNameSize < s.utf8ByteSize then .error .tooLong else .ok (s :: w.1, es.lookup s)
    else if Path.isIdle s then .ok w
    else .ok (w.1.follow s, t.branch? (w.1.follow s))

/-- The place that a path leads to, whether something stands there or not. -/
def locate (t : Tree) (p : Path) : Except FileFault Place :=
  if p = [] then .error .missing
  else if p.hasNul then .error .nulByte
  else if Path.maxSize < p.size then .error .tooLong
  else (p.foldlM t.step ([], t.branch? [])).map Prod.fst

/-- Whether a path leads to a directory. -/
def isDirectory (t : Tree) (p : Path) : Bool :=
  match t.locate p with
  | .ok q => decide (t.node? q = some .directory)
  | .error _ => false

/-! ## Files -/

/-- The text of a file. -/
def readText (t : Tree) (p : Path) : Except FileFault String :=
  match t.locate p with
  | .error f => .error f
  | .ok q =>
    match t.node? q with
    | none => .error .missing
    | some .directory => .error .isDirectory
    | some (.file c) =>
      match c.text? with
      | some s => .ok s
      | none => .error .notText

/-- The tree with a text as the content of a file, new or not. -/
def writeText (t : Tree) (p : Path) (s : String) : Except FileFault Tree :=
  match t.locate p with
  | .error f => .error f
  | .ok q =>
    if t.node? q = some .directory then .error .isDirectory
    else .ok (t.set q (.file (.ofText s)))

/-- The tree without a file. -/
def removeFile (t : Tree) (p : Path) : Except FileFault Tree :=
  match t.locate p with
  | .error f => .error f
  | .ok q =>
    match t.node? q with
    | none => .error .missing
    | some .directory => .error .isDirectory
    | some _ => .ok (t.erase q)

/-- The tree with the file at `source` at `target` instead, in place of a file there. -/
def moveFile (t : Tree) (source target : Path) : Except FileFault Tree :=
  match t.locate source, t.locate target with
  | .error f, _ => .error f
  | _, .error f => .error f
  | .ok q, .ok r =>
    match t.node? q with
    | none => .error .missing
    | some n =>
      if t.node? r = some .directory then (if n = .directory then .ok t else .error .isDirectory)
      else .ok ((t.erase q).set r n)

/-! ## Directories -/

/-- The names in the directory that a path leads to. -/
def list (t : Tree) (p : Path) : Except FileFault (List String) :=
  match t.locate p with
  | .error f => .error f
  | .ok q =>
    match t.node? q with
    | none => .error .missing
    | some .directory => .ok (t.names q)
    | some _ => .error .notDirectory

/-- The tree with a new directory. Slashes at the end of a path count for its length only. -/
def makeDirectory (t : Tree) (p : Path) : Except FileFault Tree :=
  if !p.hasNul && decide (Path.maxSize < p.size) then .error .tooLong
  else
    match t.locate p.bare with
    | .error f => .error f
    | .ok q => if t.node? q = none then .ok (t.set q .directory) else .error .occupied

/-- The tree with a directory, new or not. -/
def haveDirectory (t : Tree) (p : Path) : Except FileFault Unit × Tree :=
  match t.makeDirectory p with
  | .ok t => (.ok (), t)
  | .error f => (if t.isDirectory p then .ok () else .error f, t)

/-- The tree with a directory, and the one above it if that is missing; `above` are the steps to
it, the last one first. Directories that were made stay even if a later one cannot be made. -/
def makeAlong (t : Tree) (p : Path) : (above : List String) → Except FileFault Unit × Tree
  | [] => t.haveDirectory p
  | s :: above =>
    match t.makeDirectory p with
    | .error .missing =>
      match makeAlong t (s :: above).reverse above with
      | (.error f, t) => (.error f, t)
      | (.ok (), t) => t.haveDirectory p
    | _ => t.haveDirectory p

/-- The tree with a directory and all that are missing above it. The empty path asks for none. -/
def makeDirectories (t : Tree) (p : Path) : Except FileFault Unit × Tree :=
  if p = [] then (.ok (), t) else t.makeAlong p p.stepsAbove

end Tree

end OvertimeNotice
