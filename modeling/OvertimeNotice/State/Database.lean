import OvertimeNotice.State.Backend

/-!
# The database

Three tables: the runs, the notification marks and the history of what runs decided. A database may
also have no tables yet; then every call fails.

Months are stored as text and compared as text.
-/

namespace OvertimeNotice

structure RunRow where
  id : String
  month : String
  mode : String
  startedAt : String
  version : String
deriving DecidableEq, Repr

structure MarkRow where
  employee : String
  month : String
  marker : String
deriving DecidableEq, Repr

structure HistoryRow where
  run : String
  month : String
  employee : String
  kind : String
  payload : String
  recordedAt : String
deriving DecidableEq, Repr

structure Tables where
  runs : List RunRow
  marks : List MarkRow
  /-- In the order they came. The number of a row is its place, counted from one. -/
  history : List HistoryRow
deriving DecidableEq, Repr

/-- A history row with its number and its month read. The number is missing before it is stored. -/
structure HistoryRecord where
  id : Option Int
  run : String
  month : Month
  employee : String
  kind : String
  payload : String
  recordedAt : String
deriving DecidableEq, Repr

/-- What a database holds. -/
inductive Database where
  /-- No tables. -/
  | blank
  | ready (tables : Tables)
deriving DecidableEq, Repr

namespace Tables

def empty : Tables := { runs := [], marks := [], history := [] }

end Tables

namespace MarkRow

def ofMark (m : Mark) : MarkRow :=
  { employee := m.employee, month := m.month.text, marker := m.marker.key }

/-- Order by employee, then marker. -/
def le (a b : MarkRow) : Bool :=
  decide (a.employee < b.employee) || (a.employee == b.employee && decide (a.marker ≤ b.marker))

end MarkRow

namespace Database

/-- The tables, for a call about the table `name`. -/
def tables (d : Database) (name : String) : Except DatabaseFault Tables :=
  match d with
  | blank => .error (.noTable name)
  | ready t => .ok t

/-- The database with all tables. -/
def migrate : Database → Database
  | blank => ready Tables.empty
  | ready t => ready t

/-! ## Runs -/

def runTable : String := "run"

/-- The database with one more run; its identifier must be new. -/
def insertRun (d : Database) (row : RunRow) : Except DatabaseFault Database :=
  (d.tables runTable).bind fun t =>
    if t.runs.any fun r => r.id == row.id then .error (.notUnique ["run.run_id"])
    else .ok (ready { t with runs := t.runs ++ [row] })

def runCount (d : Database) : Except DatabaseFault Nat :=
  (d.tables runTable).map fun t => t.runs.length

/-! ## Marks -/

def markTable : String := "notification_state"

/-- The rows of a month, in order of employee and marker. -/
def markRows (t : Tables) (month : Month) : List MarkRow :=
  (t.marks.filter fun r => r.month == month.text).mergeSort MarkRow.le

/-- The marks of a month; a row whose marker is unknown is left out. -/
def loadMarks (d : Database) (month : Month) : Except DatabaseFault (List Mark) :=
  (d.tables markTable).map fun t =>
    (markRows t month).filterMap fun r =>
      (Marker.ofKey? r.marker).map fun marker => { employee := r.employee, month, marker }

/-- The database with a row; unchanged if it is there already. -/
def upsertMark (d : Database) (m : Mark) : Except DatabaseFault Database :=
  (d.tables markTable).map fun t =>
    if t.marks.contains (.ofMark m) then ready t
    else ready { t with marks := t.marks ++ [.ofMark m] }

/-- The database without the rows of months whose text comes before the month's, and how many
they were. -/
def purgeMarks (d : Database) (month : Month) : Except DatabaseFault (Nat × Database) :=
  (d.tables markTable).map fun t =>
    let kept := t.marks.filter fun r => !decide (r.month < month.text)
    (t.marks.length - kept.length, ready { t with marks := kept })

/-- The number of rows of a month, unknown markers included. -/
def countMarks (d : Database) (month : Month) : Except DatabaseFault Nat :=
  (d.tables markTable).map fun t => (t.marks.filter fun r => r.month == month.text).length

/-- The database with a row of any texts, which must be new. -/
def insertMarkRow (d : Database) (row : MarkRow) : Except DatabaseFault Database :=
  (d.tables markTable).bind fun t =>
    if t.marks.contains row then
      .error (.notUnique ["notification_state.employee_id", "notification_state.month",
        "notification_state.marker"])
    else .ok (ready { t with marks := t.marks ++ [row] })

/-! ## History -/

def historyTable : String := "notify_history"

/-- The database with one more row of history, after all others. -/
def appendHistory (d : Database) (r : HistoryRecord) : Except DatabaseFault Database :=
  (d.tables historyTable).map fun t =>
    ready { t with
      history := t.history ++ [{
        run := r.run
        month := r.month.text
        employee := r.employee
        kind := r.kind
        payload := r.payload
        recordedAt := r.recordedAt }] }

/-- A numbered row with its month read. -/
def readRow (r : HistoryRow) (number : Nat) : Except DatabaseFault HistoryRecord :=
  match Month.parse r.month with
  | .error e => .error (.badMonth e)
  | .ok month =>
    .ok {
      id := some number
      run := r.run
      month
      employee := r.employee
      kind := r.kind
      payload := r.payload
      recordedAt := r.recordedAt }

/-- The history of a run, oldest first. -/
def historyOf (d : Database) (run : String) : Except DatabaseFault (List HistoryRecord) :=
  (d.tables historyTable).bind fun t =>
    ((t.history.zipIdx 1).filter fun r => r.1.run == run).mapM fun r => readRow r.1 r.2

end Database

/-- A database as a backend. -/
def Backend.database : Backend Database where
  load m d :=
    (match d.loadMarks m with
      | .ok marks => .ok marks
      | .error f => .error (.database f), d)
  upsert e d :=
    match d.upsertMark e with
    | .ok d' => (.ok (), d')
    | .error f => (.error (.database f), d)
  purge m d :=
    match d.purgeMarks m with
    | .ok (n, d') => (.ok n, d')
    | .error f => (.error (.database f), d)

/-! ## JSON -/

namespace HistoryRecord

def toJson (r : HistoryRecord) : Json :=
  .object [("id", .nullable (fun i => .number (.integer i)) r.id), ("run_id", .string r.run),
    ("month", r.month.toJson), ("employee_id", .string r.employee), ("kind", .string r.kind),
    ("payload", .string r.payload), ("recorded_at", .string r.recordedAt)]

def ofJson? (j : Json) : Option HistoryRecord := do
  let fs ← j.fields? ["id", "run_id", "month", "employee_id", "kind", "payload", "recorded_at"]
  return {
    id := ← fs.optional "id" Json.int64?
    run := ← fs.required "run_id" Json.text?
    month := ← fs.required "month" Month.ofJson?
    employee := ← fs.required "employee_id" Json.text?
    kind := ← fs.required "kind" Json.text?
    payload := ← fs.required "payload" Json.text?
    recordedAt := ← fs.required "recorded_at" Json.text? }

end HistoryRecord

end OvertimeNotice
