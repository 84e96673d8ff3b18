import OvertimeNotice.Files.Tree
import OvertimeNotice.Json.Reader
import OvertimeNotice.Json.Writer

/-!
# Flag files

A backend of one file a month in a directory. The file of a month lists the marker keys of each
employee. It is replaced as a whole, by way of a temporary file beside it.

* `FlagFiles.upsert`: a file that cannot be read as a list of marks is replaced.
* `FlagFiles.purge`: the count of a file that is empty or cannot be read is one.
-/

namespace OvertimeNotice

/-- The content of the file of a month: marker keys by employee. -/
structure MonthFile where
  month : Option Month
  entries : TextMap TextSet
deriving DecidableEq

namespace MonthFile

def empty : MonthFile := { month := none, entries := TextMap.empty }

def toJson (f : MonthFile) : Json :=
  .object [("month", .nullable Month.toJson f.month),
    ("entries", .object (f.entries.toList.map fun e => (e.1, .texts e.2.toList)))]

def ofJson? (j : Json) : Option MonthFile := do
  let fs ← j.fields? ["month", "entries"]
  return {
    month := ← fs.optional "month" Month.ofJson?
    entries := ← fs.required "entries" (Json.textMap? Json.textSet?) }

/-- The keys of an employee. -/
def keysOf (f : MonthFile) (employee : String) : TextSet :=
  (f.entries.find? employee).getD TextSet.empty

/-- The marks that the file records for a month; unknown keys are left out. -/
def marks (f : MonthFile) (month : Month) : List Mark :=
  f.entries.toList.flatMap fun e =>
    e.2.toList.filterMap fun k =>
      (Marker.ofKey? k).map fun marker => { employee := e.1, month, marker }

/-- The file with one more key, for the month of the mark. -/
def insert (f : MonthFile) (m : Mark) : MonthFile :=
  { month := some m.month
    entries := f.entries.insert m.employee ((f.keysOf m.employee).insert m.marker.key) }

end MonthFile

/-- The store in a directory. -/
structure FlagFiles where
  dir : String
deriving DecidableEq, Repr

namespace FlagFiles

def nameStart : List Char := "notified_".toList

def nameEnd : List Char := ".json".toList

/-- The name of a month's file. -/
def fileName (month : Month) : String :=
  String.ofList (nameStart ++ month.textChars ++ nameEnd)

/-- The month whose text stands in a file name. -/
def monthOfName? (name : String) : Option Month := do
  let rest ← nameStart.isPrefixOf? name.toList
  let text ← nameEnd.isSuffixOf? rest
  (Month.parse (String.ofList text)).toOption

/-- The path of a month's file as text. -/
def pathText (s : FlagFiles) (month : Month) : String := Path.join s.dir (fileName month)

/-- The path of a file of the store. -/
def pathOf (s : FlagFiles) (name : String) : Path := (Path.ofText s.dir).child name

def path (s : FlagFiles) (month : Month) : Path := s.pathOf (fileName month)

/-- The path of the temporary file beside a month's file. -/
def temporary (s : FlagFiles) (month : Month) : Path := s.pathOf (fileName month ++ ".tmp")

/-- The tree with the directory of the store. -/
def setUp (s : FlagFiles) (t : Tree) : Except FileFault Unit × Tree :=
  t.makeDirectories (Path.ofText s.dir)

/-- The content of a month's file; a missing file records nothing. -/
def read (s : FlagFiles) (month : Month) (t : Tree) : Except Failure MonthFile :=
  match t.readText (s.path month) with
  | .error .missing => .ok MonthFile.empty
  | .error f => .error (.file f)
  | .ok text =>
    match (Json.parse? text).bind MonthFile.ofJson? with
    | some file => .ok file
    | none => .error (.corruptState (s.pathText month ++ ": " ++ jsonComplaint))

/-- The tree with a new file for a month. If moving it into place fails the temporary file is
left behind. -/
def write (s : FlagFiles) (month : Month) (file : MonthFile) (t : Tree) :
    Except Failure Unit × Tree :=
  match t.writeText (s.temporary month) file.toJson.pretty with
  | .error f => (.error (.file f), t)
  | .ok written =>
    match written.moveFile (s.temporary month) (s.path month) with
    | .error f => (.error (.file f), written)
    | .ok moved => (.ok (), moved)

def load (s : FlagFiles) (month : Month) (t : Tree) : Except Failure (List Mark) :=
  (s.read month t).map fun f => f.marks month

/-- The content to add a mark to: that of the month's file, or nothing if it is corrupt. -/
def readToAmend (s : FlagFiles) (month : Month) (t : Tree) : Except Failure MonthFile :=
  match s.read month t with
  | .error (.corruptState _) => .ok MonthFile.empty
  | r => r

/-- Records a mark. A file that has its key is not written. -/
def upsert (s : FlagFiles) (m : Mark) (t : Tree) : Except Failure Unit × Tree :=
  match s.readToAmend m.month t with
  | .error f => (.error f, t)
  | .ok file =>
    if (file.keysOf m.employee).contains m.marker.key then (.ok (), t)
    else s.write m.month (file.insert m) t

/-- How many marks a month's file counts for. -/
def held (s : FlagFiles) (month : Month) (t : Tree) : Nat :=
  match s.load month t with
  | .ok marks => max 1 marks.length
  | .error _ => 1

/-- One name of the directory, when months before `month` go. -/
def purgeName (s : FlagFiles) (month : Month) (acc : Nat × Tree) (name : String) : Nat × Tree :=
  match monthOfName? name with
  | none => acc
  | some m =>
    if m < month then
      match acc.2.removeFile (s.pathOf name) with
      | .ok t => (acc.1 + s.held m acc.2, t)
      | .error _ => acc
    else acc

/-- Removes the files of the months before a month. A file that cannot be removed stays. Where the
directory is the empty text, which names none, the files stand in the working directory but cannot
be listed. -/
def purge (s : FlagFiles) (month : Month) (t : Tree) : Except Failure Nat × Tree :=
  match t.list (Path.ofText s.dir) with
  | .error f => (.error (.file f), t)
  | .ok names =>
    let r := names.foldl (s.purgeName month) (0, t)
    (.ok r.1, r.2)

end FlagFiles

/-- Flag files as a backend. -/
def Backend.flagFiles (s : FlagFiles) : Backend Tree where
  load m t := (s.load m t, t)
  upsert e t := s.upsert e t
  purge m t := s.purge m t

end OvertimeNotice
