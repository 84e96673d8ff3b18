import OvertimeNotice.Files.Branch
import OvertimeNotice.Json.Reader
import OvertimeNotice.Json.Writer

/-!
# The file of a database

A database as text: one JSON object that says whether changes go to a log, and has an array for
each table and an array of texts for each row. Any other bytes stand for themselves.

* `Content.toBytes`, `Content.ofBytes`: the two directions.
-/

namespace OvertimeNotice

namespace RunRow

def toJson (r : RunRow) : Json := .texts [r.id, r.month, r.mode, r.startedAt, r.version]

def ofJson? (j : Json) : Option RunRow := do
  let [id, month, mode, startedAt, version] ← j.list? Json.text? | none
  return { id, month, mode, startedAt, version }

end RunRow

namespace MarkRow

def toJson (r : MarkRow) : Json := .texts [r.employee, r.month, r.marker]

def ofJson? (j : Json) : Option MarkRow := do
  let [employee, month, marker] ← j.list? Json.text? | none
  return { employee, month, marker }

end MarkRow

namespace HistoryRow

def toJson (r : HistoryRow) : Json :=
  .texts [r.run, r.month, r.employee, r.kind, r.payload, r.recordedAt]

def ofJson? (j : Json) : Option HistoryRow := do
  let [run, month, employee, kind, payload, recordedAt] ← j.list? Json.text? | none
  return { run, month, employee, kind, payload, recordedAt }

end HistoryRow

namespace Tables

def toJson (t : Tables) : Json :=
  .object [("runs", .array (t.runs.map RunRow.toJson)),
    ("marks", .array (t.marks.map MarkRow.toJson)),
    ("history", .array (t.history.map HistoryRow.toJson))]

def ofJson? (j : Json) : Option Tables := do
  let fs ← j.fields? ["runs", "marks", "history"]
  return {
    runs := ← fs.required "runs" (Json.list? RunRow.ofJson?)
    marks := ← fs.required "marks" (Json.list? MarkRow.ofJson?)
    history := ← fs.required "history" (Json.list? HistoryRow.ofJson?) }

end Tables

namespace Database

/-- The tables, null if there are none. -/
def toJson : Database → Json
  | blank => .null
  | ready t => t.toJson

def ofJson? (j : Json) : Option Database :=
  (j.orNull? Tables.ofJson?).map fun
    | none => blank
    | some t => ready t

end Database

namespace Content

/-- The bytes to write for a content. -/
def toBytes : Content → ByteArray
  | bytes b => b
  | database d logged =>
    (Json.object [("logged", .bool logged), ("tables", d.toJson)]).pretty.toUTF8

/-- The database of a JSON value. -/
def ofJson? (j : Json) : Option Content := do
  let fs ← j.fields? ["logged", "tables"]
  return database (← fs.required "tables" Database.ofJson?) (← fs.required "logged" Json.bool?)

/-- The content of bytes. -/
def ofBytes (b : ByteArray) : Content :=
  (((String.fromUTF8? b).bind Json.parse?).bind ofJson?).getD (bytes b)

end Content

end OvertimeNotice
