import OvertimeNotice.Schedule
import OvertimeNotice.Text.Blank

/-!
# Recipients

Who receives a report on an employee: the managers of the department and of every department, and
the employee, where that is switched on, allowed, and the report qualifies.
-/

namespace OvertimeNotice

/-- The identities a report goes to. -/
structure Recipients where
  managers : TextSet
  /-- The employee's own identity. -/
  employee : Option String
deriving DecidableEq

namespace Recipients

def onlyEmployee (identity : String) : Recipients :=
  { managers := TextSet.empty, employee := some identity }

/-- Nobody. -/
def isEmpty (r : Recipients) : Bool := r.managers.isEmpty && r.employee.isNone

/-- Managers and employee, each identity once. -/
def all (r : Recipients) : TextSet :=
  match r.employee with
  | none => r.managers
  | some e => r.managers.insert e

end Recipients

/-- A report of this kind may go to its employee. -/
def qualifies (mode : RunMode) (severity : Severity) : Bool :=
  mode == .forced || severity.isNotifiable

/-- The identity of a text that is not blank. -/
def identity? (s : String) : Option String :=
  if Text.trim s = "" then none else some (Text.trim s)

namespace Config

/-- The identities listed under a key. -/
def listed (c : Config) (key : String) : List String :=
  ((c.recipients.find? key).getD []).filterMap identity?

/-- The managers of a department: its own and those of every department. -/
def managers (c : Config) (department : String) : TextSet :=
  TextSet.ofList (c.listed department ++ c.listed everyDepartment)

/-- The employee may receive their own report. -/
def selfAllowed (c : Config) (employee : String) : Bool :=
  c.selfNotify.enabled && c.selfNotify.allowlist.contains employee

/-- The recipients of a report. -/
def recipientsOf (c : Config) (department employee : String) (identity : Option String)
    (mode : RunMode) (severity : Severity) : Recipients :=
  { managers := c.managers department
    employee :=
      if qualifies mode severity && c.selfAllowed employee then identity.bind identity?
      else none }

end Config

/-! ## JSON -/

namespace Recipients

def toJson (r : Recipients) : Json :=
  .object [("managers", .texts r.managers.toList), ("employee", .nullable .string r.employee)]

def ofJson? (j : Json) : Option Recipients := do
  let fs ← j.fields? ["managers", "employee"]
  return {
    managers := ← fs.required "managers" Json.textSet?
    employee := ← fs.optional "employee" Json.text? }

end Recipients

end OvertimeNotice
