import OvertimeNotice.Routing
import OvertimeNotice.Row
import OvertimeNotice.State.Warning

/-!
# Reports

What a run decides: an ordered list of entries, each a report on one employee for some
recipients, the employees that got no ordinary entry, everyone's figures, and warnings.
-/

namespace OvertimeNotice

/-- What an entry reports. -/
inductive EntryKind where
  /-- A step newly reached. -/
  | ordinary
  /-- The threshold of direct notice, newly reached. -/
  | selfEscalation
  /-- The figures, as everyone's. -/
  | forced
deriving DecidableEq, Repr, Inhabited

/-- One employee's figures of a month. -/
structure Snapshot where
  employee : String
  name : String
  department : String
  month : Month
  minutes : UInt32
  previousMinutes : Option UInt32
  ceiling : UInt32
  percent : Binary64
  severity : Severity
  /-- Rounded percentage of the previous month; zero without one. -/
  percentVsLast : UInt32
  /-- Negative above the ceiling. -/
  remaining : Int
deriving DecidableEq

/-- One report on one employee. -/
structure PlanEntry where
  kind : EntryKind
  mode : RunMode
  recipients : Recipients
  snapshot : Snapshot
  /-- There is no recipient. -/
  recipientGap : Bool
  /-- The marker of the entry, if it has one, was written. -/
  statePersisted : Bool
deriving DecidableEq

/-- Why an employee gets no ordinary entry. -/
inductive SuppressReason where
  | belowThreshold
  | alreadyNotified (severity : Severity)
deriving DecidableEq, Repr

/-- An employee who gets no ordinary entry. -/
structure Suppressed where
  employee : String
  percent : Binary64
  reason : SuppressReason
deriving DecidableEq, Repr

structure Report where
  runId : String
  month : Month
  decision : RunDecision
  entries : List PlanEntry
  suppressed : List Suppressed
  evaluated : List Snapshot
  warnings : List Warning
deriving DecidableEq

namespace Snapshot

/-- More minutes than the ceiling allows. -/
def isOverCeiling (s : Snapshot) : Bool := decide (s.ceiling < s.minutes)

/-- The figures of a record under a ceiling. -/
def ofRecord (r : OvertimeRecord) (ceiling : UInt32) : Except Violation Snapshot :=
  (evaluate r.minutes ceiling).map fun e =>
    { employee := r.employee
      name := r.name
      department := r.department
      month := r.month
      minutes := r.minutes
      previousMinutes := r.previousMinutes
      ceiling
      percent := e.percent
      severity := e.severity
      percentVsLast := roundedPercent r.minutes (r.previousMinutes.getD 0)
      remaining := (ceiling.toNat : Int) - r.minutes.toNat }

/-- Figures come from an evaluation. -/
theorem ofRecord_eq_ok {r : OvertimeRecord} {ceiling : UInt32} {s : Snapshot}
    (h : ofRecord r ceiling = .ok s) :
    ∃ e, evaluate r.minutes ceiling = .ok e ∧ s =
      { employee := r.employee, name := r.name, department := r.department, month := r.month
        minutes := r.minutes, previousMinutes := r.previousMinutes, ceiling, percent := e.percent
        severity := e.severity, percentVsLast := roundedPercent r.minutes (r.previousMinutes.getD 0)
        remaining := (ceiling.toNat : Int) - r.minutes.toNat } := by
  rw [ofRecord] at h
  cases he : evaluate r.minutes ceiling with
  | error v =>
    rw [he] at h
    cases h
  | ok e =>
    rw [he] at h
    exact ⟨e, rfl, (Except.ok.inj h).symm⟩

end Snapshot

namespace Report

/-- The entries on an employee. -/
def entriesFor (r : Report) (employee : String) : List PlanEntry :=
  r.entries.filter fun e => e.snapshot.employee == employee

/-- Some entry has no recipient. -/
def hasGaps (r : Report) : Bool := r.entries.any (·.recipientGap)

end Report

/-- The entries for each recipient, in plan order; recipients ascending. -/
def digest (entries : List PlanEntry) : TextMap (List PlanEntry) :=
  entries.foldl
    (fun d e => e.recipients.all.toList.foldl
      (fun d r => d.insert r ((d.find? r).getD [] ++ [e])) d)
    TextMap.empty

/-! ## JSON -/

namespace EntryKind

def table : List (String × EntryKind) :=
  [("ordinary", ordinary), ("self_escalation", selfEscalation), ("forced", forced)]

def name : EntryKind → String
  | ordinary => "ordinary"
  | selfEscalation => "self_escalation"
  | forced => "forced"

def toJson (k : EntryKind) : Json := .string k.name

def ofJson? (w : Json.Within) (j : Json) : Option EntryKind := j.choice? table w

end EntryKind

namespace Snapshot

def toJson (s : Snapshot) : Json :=
  .object [("employee_id", .string s.employee), ("name", .string s.name),
    ("department", .string s.department), ("month", s.month.toJson),
    ("minutes", .nat s.minutes.toNat),
    ("previous_minutes", .nullable (fun n => .nat n.toNat) s.previousMinutes),
    ("ceiling_minutes", .nat s.ceiling.toNat), ("percent", .real s.percent),
    ("severity", s.severity.toJson), ("percent_vs_last", .nat s.percentVsLast.toNat),
    ("remaining_minutes", .number (.integer s.remaining))]

def ofJson? (w : Json.Within) (j : Json) : Option Snapshot := do
  let fs ← j.fields? ["employee_id", "name", "department", "month", "minutes",
    "previous_minutes", "ceiling_minutes", "percent", "severity", "percent_vs_last",
    "remaining_minutes"]
  return {
    employee := ← fs.required "employee_id" Json.text?
    name := ← fs.required "name" Json.text?
    department := ← fs.required "department" Json.text?
    month := ← fs.required "month" Month.ofJson?
    minutes := ← fs.required "minutes" Json.word?
    previousMinutes := ← fs.optional "previous_minutes" Json.word?
    ceiling := ← fs.required "ceiling_minutes" Json.word?
    percent := ← fs.required "percent" Json.binary64?
    severity := ← fs.required "severity" (Severity.ofJson? w)
    percentVsLast := ← fs.required "percent_vs_last" Json.word?
    remaining := ← fs.required "remaining_minutes" Json.int64? }

end Snapshot

namespace PlanEntry

def toJson (e : PlanEntry) : Json :=
  .object [("kind", e.kind.toJson), ("mode", e.mode.toJson),
    ("recipients", e.recipients.toJson), ("snapshot", e.snapshot.toJson),
    ("recipient_gap", .bool e.recipientGap), ("state_persisted", .bool e.statePersisted)]

def ofJson? (w : Json.Within) (j : Json) : Option PlanEntry := do
  let fs ← j.fields? ["kind", "mode", "recipients", "snapshot", "recipient_gap",
    "state_persisted"]
  return {
    kind := ← fs.required "kind" (EntryKind.ofJson? w)
    mode := ← fs.required "mode" (RunMode.ofJson? w)
    recipients := ← fs.required "recipients" Recipients.ofJson?
    snapshot := ← fs.required "snapshot" (Snapshot.ofJson? w.inner)
    recipientGap := ← fs.required "recipient_gap" Json.bool?
    statePersisted := ← fs.required "state_persisted" Json.bool? }

end PlanEntry

namespace SuppressReason

/-- The members of an object that tell the reason. -/
def members : SuppressReason → List (String × Json)
  | belowThreshold => [("reason", .string "below_threshold")]
  | alreadyNotified s => [("reason", .string "already_notified"), ("severity", s.toJson)]

def toJson (r : SuppressReason) : Json := .object r.members

def ofJson? (w : Json.Within) (j : Json) : Option SuppressReason := do
  let (name, content) ← j.tagged? "reason" ["below_threshold", "already_notified"] w
  if name = "below_threshold" then
    match content with
    | .array (_ :: _) => none
    | _ => return belowThreshold
  else
    let fs ← content.fields? ["severity"]
    return alreadyNotified (← fs.required "severity" (Severity.ofJson? .tagged))

end SuppressReason

namespace Suppressed

def toJson (s : Suppressed) : Json :=
  .object ([("employee_id", .string s.employee), ("percent", .real s.percent)]
    ++ s.reason.members)

/-- The reason is read from the members that belong to no field. -/
def ofJson? (w : Json.Within) (j : Json) : Option Suppressed := do
  let names := ["employee_id", "percent"]
  let fs ← j.memberFields? names
  let employee ← fs.required "employee_id" Json.text?
  let percent ← fs.required "percent" Json.binary64?
  match j with
  | .object ms =>
    if j.isReadable w then
      let others := ms.filter fun m => !names.contains m.1
      let reason ← SuppressReason.ofJson? .tagged (.object others)
      return { employee, percent, reason }
    else none
  | _ => none

end Suppressed

namespace Report

def toJson (r : Report) : Json :=
  .object [("run_id", .string r.runId), ("month", r.month.toJson),
    ("decision", r.decision.toJson), ("entries", .array (r.entries.map PlanEntry.toJson)),
    ("suppressed", .array (r.suppressed.map Suppressed.toJson)),
    ("evaluated", .array (r.evaluated.map Snapshot.toJson)),
    ("warnings", .array (r.warnings.map Warning.toJson))]

def ofJson? (j : Json) : Option Report := do
  let fs ← j.fields? ["run_id", "month", "decision", "entries", "suppressed", "evaluated",
    "warnings"]
  return {
    runId := ← fs.required "run_id" Json.text?
    month := ← fs.required "month" Month.ofJson?
    decision := ← fs.required "decision" (RunDecision.ofJson? (.text 1))
    entries := ← fs.required "entries" (Json.list? (PlanEntry.ofJson? (.text 2)))
    suppressed := ← fs.required "suppressed" (Json.list? (Suppressed.ofJson? (.text 2)))
    evaluated := ← fs.required "evaluated" (Json.list? (Snapshot.ofJson? (.text 2)))
    warnings := ← fs.required "warnings" (Json.list? (Warning.ofJson? (.text 2))) }

end Report

end OvertimeNotice
