import OvertimeNotice.Failure

/-!
# Notification marks

What an employee has been sent in a month: a step, or the direct notice about themselves. A
marker is stored under a key, and any text may turn up as a key.
-/

namespace OvertimeNotice

/-- What was sent. -/
inductive Marker where
  | level (severity : Severity)
  | selfEscalation
deriving DecidableEq, Repr, Inhabited

/-- A marker of an employee in a month. -/
structure Mark where
  employee : String
  month : Month
  marker : Marker
deriving DecidableEq, Repr

namespace Marker

def selfEscalationKey : String := "self_escalation"

/-- The key a marker is stored under: the percentage of its step. -/
def key : Marker → String
  | level s => (s.percent?.map toString).getD ""
  | selfEscalation => selfEscalationKey

/-- The marker of a key; a percentage may start with a plus sign and with zeros. -/
def ofKey? (key : String) : Option Marker :=
  if key = selfEscalationKey then some selfEscalation
  else
    ((Numeral.read? Numeral.max32 key.toList).bind Severity.ofStep?).map level

def toJson : Marker → Json
  | level s => .object [("level", s.toJson)]
  | selfEscalation => .string "self_escalation"

def ofJson? (w : Json.Within) (j : Json) : Option Marker :=
  match j.alternative? with
  | some ("level", some content) => (Severity.ofJson? w content).map level
  | some ("self_escalation", content) =>
    if Json.isVoid w content then some selfEscalation else none
  | _ => none

end Marker

namespace Mark

def toJson (m : Mark) : Json :=
  .object [("employee_id", .string m.employee), ("month", m.month.toJson),
    ("marker", m.marker.toJson)]

def ofJson? (j : Json) : Option Mark := do
  let fs ← j.fields? ["employee_id", "month", "marker"]
  return {
    employee := ← fs.required "employee_id" Json.text?
    month := ← fs.required "month" Month.ofJson?
    marker := ← fs.required "marker" (Marker.ofJson? (.text 1)) }

end Mark

end OvertimeNotice
