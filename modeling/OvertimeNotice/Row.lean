import OvertimeNotice.Failure
import OvertimeNotice.Text.Blank

/-!
# Overtime rows

A row as a source delivers it, and the record it becomes once it is accepted for a month.

* `RawRow.accept`: identifier and department must not be blank, and the minutes must be given and
  fit 32 bits; a bad figure for the previous month is merely dropped.
-/

namespace OvertimeNotice

/-- One employee's figures before they are checked. -/
structure RawRow where
  employee : String
  name : String
  department : String
  identity : Option String
  minutes : Option Int
  previousMinutes : Option Int
deriving DecidableEq, Repr

/-- One employee's figures for a month. -/
structure OvertimeRecord where
  employee : String
  name : String
  department : String
  identity : Option String
  month : Month
  minutes : UInt32
  previousMinutes : Option UInt32
deriving DecidableEq, Repr

/-- Why a row is not accepted. -/
inductive RowFault where
  | noEmployee
  | noDepartment
  | noMinutes (month : Month)
  | badMinutes (minutes : Int)
deriving DecidableEq, Repr

def RowFault.message : RowFault → String
  | noEmployee => "missing employee id"
  | noDepartment => "missing department code"
  | noMinutes month => "no overtime figure for " ++ month.text
  | badMinutes m => "invalid overtime minutes " ++ toString m

/-- A number that fits 32 bits without a sign. -/
def word? (i : Int) : Option UInt32 :=
  if 0 ≤ i ∧ i ≤ 4294967295 then some (UInt32.ofNat i.toNat) else none

namespace RawRow

/-- The record of a row for a month. -/
def accept (r : RawRow) (month : Month) : Except RowFault OvertimeRecord :=
  if Text.trim r.employee = "" then .error .noEmployee
  else if Text.trim r.department = "" then .error .noDepartment
  else
    match r.minutes with
    | none => .error (.noMinutes month)
    | some m =>
      match word? m with
      | none => .error (.badMinutes m)
      | some minutes =>
        .ok {
          employee := Text.trim r.employee
          name := r.name
          department := Text.trim r.department
          identity := r.identity.filter fun s => Text.trim s != ""
          month
          minutes
          previousMinutes := r.previousMinutes.bind word? }

def toJson (r : RawRow) : Json :=
  .object [("employee_id", .string r.employee), ("name", .string r.name),
    ("department", .string r.department), ("chat_id", .nullable .string r.identity),
    ("minutes", .nullable (fun i => .number (.integer i)) r.minutes),
    ("previous_minutes", .nullable (fun i => .number (.integer i)) r.previousMinutes)]

def ofJson? (j : Json) : Option RawRow := do
  let fs ← j.fields? ["employee_id", "name", "department", "chat_id", "minutes",
    "previous_minutes"]
  return {
    employee := ← fs.required "employee_id" Json.text?
    name := ← fs.required "name" Json.text?
    department := ← fs.required "department" Json.text?
    identity := ← fs.optional "chat_id" Json.text?
    minutes := ← fs.optional "minutes" Json.int64?
    previousMinutes := ← fs.optional "previous_minutes" Json.int64? }

end RawRow

namespace OvertimeRecord

def toJson (r : OvertimeRecord) : Json :=
  .object [("employee_id", .string r.employee), ("name", .string r.name),
    ("department", .string r.department), ("chat_id", .nullable .string r.identity),
    ("month", r.month.toJson), ("minutes", .nat r.minutes.toNat),
    ("previous_minutes", .nullable (fun n => .nat n.toNat) r.previousMinutes)]

def ofJson? (j : Json) : Option OvertimeRecord := do
  let fs ← j.fields? ["employee_id", "name", "department", "chat_id", "month", "minutes",
    "previous_minutes"]
  return {
    employee := ← fs.required "employee_id" Json.text?
    name := ← fs.required "name" Json.text?
    department := ← fs.required "department" Json.text?
    identity := ← fs.optional "chat_id" Json.text?
    month := ← fs.required "month" Month.ofJson?
    minutes := ← fs.required "minutes" Json.word?
    previousMinutes := ← fs.optional "previous_minutes" Json.word? }

end OvertimeRecord

end OvertimeNotice
