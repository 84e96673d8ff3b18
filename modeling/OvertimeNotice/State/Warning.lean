import OvertimeNotice.State.Mark

/-!
# Warnings

Problems that a run reports and goes on after.
-/

namespace OvertimeNotice

inductive Warning where
  | stateReadFailed (month : Month) (reason : String)
  | stateWriteFailed (employee : String) (marker : Marker) (reason : String)
  /-- A report without a recipient. -/
  | recipientGap (employee department : String)
  | recordSkipped (employee reason : String)
deriving DecidableEq, Repr

namespace Warning

/-- The employee that the warning is about, if it is about one. -/
def subject : Warning → String
  | stateReadFailed .. => ""
  | stateWriteFailed e .. => e
  | recipientGap e _ => e
  | recordSkipped e _ => e

def names : List String :=
  ["state_read_failed", "state_write_failed", "recipient_gap", "record_skipped"]

def toJson : Warning → Json
  | stateReadFailed month reason =>
    .object [("type", .string "state_read_failed"), ("month", month.toJson),
      ("reason", .string reason)]
  | stateWriteFailed employee marker reason =>
    .object [("type", .string "state_write_failed"), ("employee_id", .string employee),
      ("marker", marker.toJson), ("reason", .string reason)]
  | recipientGap employee department =>
    .object [("type", .string "recipient_gap"), ("employee_id", .string employee),
      ("department", .string department)]
  | recordSkipped employee reason =>
    .object [("type", .string "record_skipped"), ("employee_id", .string employee),
      ("reason", .string reason)]

def ofJson? (w : Json.Within) (j : Json) : Option Warning := do
  let (name, content) ← j.tagged? "type" names w
  if name = "state_read_failed" then
    let fs ← content.fields? ["month", "reason"]
    return stateReadFailed (← fs.required "month" Month.ofJson?)
      (← fs.required "reason" Json.text?)
  else if name = "state_write_failed" then
    let fs ← content.fields? ["employee_id", "marker", "reason"]
    return stateWriteFailed (← fs.required "employee_id" Json.text?)
      (← fs.required "marker" (Marker.ofJson? .tagged)) (← fs.required "reason" Json.text?)
  else if name = "recipient_gap" then
    let fs ← content.fields? ["employee_id", "department"]
    return recipientGap (← fs.required "employee_id" Json.text?)
      (← fs.required "department" Json.text?)
  else
    let fs ← content.fields? ["employee_id", "reason"]
    return recordSkipped (← fs.required "employee_id" Json.text?)
      (← fs.required "reason" Json.text?)

end Warning

end OvertimeNotice
