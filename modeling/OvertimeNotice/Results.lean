import OvertimeNotice.History
import OvertimeNotice.State.Connection.Calls

/-!
# Results

The figures of a month as one JSON file in a cache directory, by employee, and the archive of a
finished run: that file and the history rows. Archiving goes on after a failure and reports it.
-/

namespace OvertimeNotice

/-- One employee's figures as other programs read them. -/
structure ResultRow where
  name : String
  division : String
  current : UInt32
  last : Option UInt32
  target : UInt32
  percentVsLast : UInt32
  percentTarget : UInt32
deriving DecidableEq, Repr

namespace ResultRow

def ofSnapshot (s : Snapshot) : ResultRow :=
  { name := s.name
    division := s.department
    current := s.minutes
    last := s.previousMinutes
    target := s.ceiling
    percentVsLast := s.percentVsLast
    percentTarget := roundedPercent s.minutes s.ceiling }

def toJson (r : ResultRow) : Json :=
  .object [("name", .string r.name), ("division", .string r.division),
    ("current", .nat r.current.toNat), ("last", .nullable (fun n => .nat n.toNat) r.last),
    ("target", .nat r.target.toNat), ("percent_vs_last", .nat r.percentVsLast.toNat),
    ("percent_target", .nat r.percentTarget.toNat)]

def ofJson? (j : Json) : Option ResultRow := do
  let fs ← j.fields? ["name", "division", "current", "last", "target", "percent_vs_last",
    "percent_target"]
  return {
    name := ← fs.required "name" Json.text?
    division := ← fs.required "division" Json.text?
    current := ← fs.required "current" Json.word?
    last := ← fs.optional "last" Json.word?
    target := ← fs.required "target" Json.word?
    percentVsLast := ← fs.required "percent_vs_last" Json.word?
    percentTarget := ← fs.required "percent_target" Json.word? }

end ResultRow

namespace Results

/-- The rows by employee; of several snapshots of one employee the last. -/
def rows (snapshots : List Snapshot) : TextMap ResultRow :=
  TextMap.ofList (snapshots.map fun s => (s.employee, .ofSnapshot s))

def toJson (rows : TextMap ResultRow) : Json :=
  .object (rows.toList.map fun e => (e.1, e.2.toJson))

/-- The name of a month's file. -/
def fileName (month : Month) : String := "overtime_result_" ++ month.compact ++ ".json"

/-- The path of a month's file as text. -/
def pathText (cacheDir : String) (month : Month) : String := Path.join cacheDir (fileName month)

def path (cacheDir : String) (month : Month) : Path := (Path.ofText cacheDir).child (fileName month)

/-- The tree with the file of a month, and the directory for it. Directories that were made stay
even if the file cannot be written. -/
def save (cacheDir : String) (month : Month) (snapshots : List Snapshot) (t : Tree) :
    Except FileFault Unit × Tree :=
  match t.makeDirectories (Path.ofText cacheDir) with
  | (.error f, t) => (.error f, t)
  | (.ok (), t) =>
    match t.writeText (path cacheDir month) (toJson (rows snapshots)).pretty with
    | .error f => (.error f, t)
    | .ok t => (.ok (), t)

end Results

/-- Appends history rows one by one, and reports those that fail. -/
def World.archiveHistory (records : List HistoryRecord) (w : World) : List String × World :=
  records.foldl
    (fun acc r =>
      match call (update fun d => d.appendHistory r) acc.2 with
      | (.ok (), w) => (acc.1, w)
      | (.error f, w) => (acc.1 ++ ["history " ++ r.employee ++ ": " ++ f.message], w))
    ([], w)

/-- Archives a report: its figures in the cache directory, its events in the database. -/
def World.archive (report : Report) (cacheDir recordedAt : String) (w : World) :
    List String × World :=
  let saved := Results.save cacheDir report.month report.evaluated w.files
  let failed :=
    match saved.1 with
    | .ok () => []
    | .error f => ["results cache: " ++ (Failure.file f).message]
  let stored := World.archiveHistory (report.historyRecords recordedAt) { w with files := saved.2 }
  (failed ++ stored.1, stored.2)

end OvertimeNotice
