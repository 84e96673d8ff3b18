import OvertimeNotice.Json.Writer
import OvertimeNotice.Plan.Report
import OvertimeNotice.State.Database

/-!
# History

What is kept of a report for good: one event for each entry, each employee without an ordinary
entry and each warning, in this order. An event is stored as compact JSON beside its kind and the
employee it is about.
-/

namespace OvertimeNotice

inductive Event where
  | planned (employee : String) (kind : EntryKind) (mode : RunMode) (severity : Severity)
      (percent : Binary64) (recipients : Recipients)
  | notNotified (employee : String) (percent : Binary64) (reason : SuppressReason)
  | warned (warning : Warning)
deriving DecidableEq

namespace Event

/-- The kind of an event in a history row. -/
def kindName : Event → String
  | planned _ .ordinary .. => "planned_ordinary"
  | planned _ .selfEscalation .. => "planned_self_escalation"
  | planned _ .forced .. => "planned_forced"
  | notNotified .. => "not_notified"
  | warned _ => "warning"

/-- The employee that an event is about. -/
def subject : Event → String
  | planned e .. => e
  | notNotified e .. => e
  | warned w => w.subject

def ofEntry (e : PlanEntry) : Event :=
  planned e.snapshot.employee e.kind e.mode e.snapshot.severity e.snapshot.percent e.recipients

def ofSuppressed (s : Suppressed) : Event := notNotified s.employee s.percent s.reason

def names : List String := ["planned", "not_notified", "warning"]

def toJson : Event → Json
  | planned employee kind mode severity percent recipients =>
    .object [("type", .string "planned"), ("employee_id", .string employee),
      ("kind", kind.toJson), ("mode", mode.toJson), ("severity", severity.toJson),
      ("percent", .real percent), ("recipients", recipients.toJson)]
  | notNotified employee percent reason =>
    .object [("type", .string "not_notified"), ("employee_id", .string employee),
      ("percent", .real percent), ("reason", reason.toJson)]
  | warned warning => .object [("type", .string "warning"), ("warning", warning.toJson)]

def ofJson? (w : Json.Within) (j : Json) : Option Event := do
  let (name, content) ← j.tagged? "type" names w
  if name = "planned" then
    let fs ← content.fields? ["employee_id", "kind", "mode", "severity", "percent", "recipients"]
    return planned (← fs.required "employee_id" Json.text?)
      (← fs.required "kind" (EntryKind.ofJson? .tagged))
      (← fs.required "mode" (RunMode.ofJson? .tagged))
      (← fs.required "severity" (Severity.ofJson? .tagged))
      (← fs.required "percent" Json.binary64?)
      (← fs.required "recipients" Recipients.ofJson?)
  else if name = "not_notified" then
    let fs ← content.fields? ["employee_id", "percent", "reason"]
    return notNotified (← fs.required "employee_id" Json.text?)
      (← fs.required "percent" Json.binary64?)
      (← fs.required "reason" (SuppressReason.ofJson? .tagged))
  else
    let fs ← content.fields? ["warning"]
    return warned (← fs.required "warning" (Warning.ofJson? .tagged))

end Event

namespace Report

/-- The events of a report, each with the employee it is filed under. -/
def events (r : Report) : List (String × Event) :=
  r.entries.map (fun e => (e.snapshot.employee, .ofEntry e))
    ++ r.suppressed.map (fun s => (s.employee, .ofSuppressed s))
    ++ r.warnings.map (fun w => (w.subject, .warned w))

/-- The history rows of a report. -/
def historyRecords (r : Report) (recordedAt : String) : List HistoryRecord :=
  r.events.map fun e =>
    { id := none
      run := r.runId
      month := r.month
      employee := e.1
      kind := e.2.kindName
      payload := e.2.toJson.compact
      recordedAt }

end Report

end OvertimeNotice
