import OvertimeNotice.Files.Tree
import OvertimeNotice.Json.Reader
import OvertimeNotice.Row

/-!
# The monthly export

Rows for a month from a roster and the exports of a time-tracking system. An employee whom no row
of the export names worked no overtime; a malformed row leaves its employee without a figure.

* `Export.fetch`: one row for each roster entry, in roster order.
-/

namespace OvertimeNotice

/-- An employee of the roster. -/
structure RosterEntry where
  code : String
  /-- The employee's name in the exports. -/
  key : String
  name : String
  department : String
  identity : String
deriving DecidableEq, Repr

/-- A row of an export that can be read. -/
structure Workings where
  key : String
  overtime : Int
  nightOvertime : Int
deriving DecidableEq, Repr

/-- What an export says of a key. -/
inductive Figure where
  | minutes (minutes : Int)
  | malformed
deriving DecidableEq, Repr

namespace RosterEntry

def ofJson? (j : Json) : Option RosterEntry := do
  let fs ← j.fields? ["code", "key", "name", "department", "chat_id"]
  return {
    code := ← fs.required "code" Json.text?
    key := ← fs.required "key" Json.text?
    name := ← fs.required "name" Json.text?
    department := ← fs.required "department" Json.text?
    identity := ← fs.withDefault "chat_id" "" Json.text? }

end RosterEntry

namespace Workings

/-- Of a member that occurs twice the last counts. -/
def ofJson? (j : Json) : Option Workings := do
  let fs ← j.lastMembers.fields? ["employeeKey", "overtime", "nightOvertime"]
  return {
    key := ← fs.required "employeeKey" Json.text?
    overtime := ← fs.withDefault "overtime" 0 Json.int64?
    nightOvertime := ← fs.withDefault "nightOvertime" 0 Json.int64? }

/-- All overtime of the month, within 64 bits. -/
def total (w : Workings) : Except Violation Int :=
  let sum := w.overtime + w.nightOvertime
  if -9223372036854775808 ≤ sum ∧ sum ≤ 9223372036854775807 then .ok sum else .error .sumRange

end Workings

namespace Export

/-- The key that a row names although it cannot be read. -/
def keyOf? (row : Json) : Option String :=
  match row.lastMembers with
  | .object members => (members.lookup "employeeKey").bind Json.text?
  | _ => none

/-- The figures with those of one more row. -/
def addRow (figures : TextMap Figure) (row : Json) : Except Violation (TextMap Figure) :=
  match Workings.ofJson? row with
  | some w => w.total.map fun m => figures.insert w.key (.minutes m)
  | none =>
    match keyOf? row with
    | some key => .ok (figures.insert key .malformed)
    | none => .ok figures

/-- The figures of the rows; of several for a key the last. -/
def figures (rows : List Json) : Except Violation (TextMap Figure) :=
  rows.foldlM addRow TextMap.empty

/-- The rows of an export; every part of it must be readable. -/
def rows? (text : String) : Option (List Json) := do
  let j ← Json.parse? text
  if j.readable Json.maxDepth then
    match j with
    | .array rows => some rows
    | _ => none
  else none

/-- The minutes of a key. -/
def minutesOf? (figures : TextMap Figure) (key : String) : Option Int :=
  match figures.find? key with
  | some (.minutes m) => some m
  | some .malformed => none
  | none => some 0

/-! ## Files -/

def rosterName : String := "employees.json"

def rosterPath (dataDir : String) : Path := (Path.ofText dataDir).child rosterName

def monthPath (dataDir : String) (month : Month) : Path :=
  ((Path.ofText dataDir).child "monthly").child (month.text ++ ".json")

/-- The roster of a data directory. -/
def roster (dataDir : String) (month : Month) (t : Tree) : Except Failure (List RosterEntry) :=
  match t.readText (rosterPath dataDir) with
  | .error f => .error (.source month (.roster (Path.join dataDir rosterName) f))
  | .ok text =>
    match (Json.parse? text).bind (Json.list? RosterEntry.ofJson?) with
    | some entries => .ok entries
    | none => .error .malformed

/-- The figures of a month; none if the export is missing. -/
def monthFigures (dataDir : String) (month : Month) (t : Tree) :
    Except Failure (Option (TextMap Figure)) :=
  match t.readText (monthPath dataDir month) with
  | .error .missing => .ok none
  | .error f => .error (.file f)
  | .ok text =>
    match rows? text with
    | none => .error .malformed
    | some rows =>
      match figures rows with
      | .ok fs => .ok (some fs)
      | .error v => .error (.violation v)

/-- The row of a roster entry. -/
def rowOf (current : TextMap Figure) (previous : Option (TextMap Figure)) (e : RosterEntry) :
    RawRow :=
  { employee := e.code
    name := e.name
    department := e.department
    identity := if e.identity = "" then none else some e.identity
    minutes := minutesOf? current e.key
    previousMinutes := previous.bind fun p => minutesOf? p e.key }

/-- The rows of a month. -/
def fetch (dataDir : String) (month : Month) (t : Tree) : Except Failure (List RawRow) := do
  let entries ← roster dataDir month t
  let some current ← monthFigures dataDir month t
    | .error (.source month .noExport)
  let previous ← monthFigures dataDir month.previous t
  return entries.map (rowOf current previous)

end Export

end OvertimeNotice
