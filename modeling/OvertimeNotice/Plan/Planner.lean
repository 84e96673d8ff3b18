import OvertimeNotice.Plan.Report
import OvertimeNotice.State.Ledger

/-!
# Planning a run

One pass over the rows of a month. Rows are accepted first, and every ceiling is found before
anyone is evaluated. Then each record in turn either gets an entry, in a run on everyone, or is
held against the ledger: an ordinary entry for a step newly reached, and an entry to the employee
the first time the threshold of direct notice is reached.

* `Planner.run`: the report, or the reason why there is none, and the ledger after it.
-/

namespace OvertimeNotice

namespace Planner

/-! ## Accepting rows -/

/-- The records accepted so far and the warnings about the other rows, each in row order. -/
structure Intake where
  records : List OvertimeRecord
  warnings : List Warning

/-- One more row. An employee is taken once. -/
def Intake.add (month : Month) (i : Intake) (row : RawRow) : Intake :=
  match row.accept month with
  | .error f => { i with warnings := i.warnings ++ [.recordSkipped row.employee f.message] }
  | .ok r =>
    if i.records.any fun s => s.employee == r.employee then
      { i with warnings := i.warnings ++ [.recordSkipped r.employee "duplicate row"] }
    else { i with records := i.records ++ [r] }

def intake (month : Month) (rows : List RawRow) : Intake :=
  rows.foldl (Intake.add month) ⟨[], []⟩

/-- The records with their ceilings, or the first department without one. -/
def withCeilings (c : Config) (records : List OvertimeRecord) :
    Except Failure (List (OvertimeRecord × UInt32)) :=
  records.mapM fun r =>
    match c.ceilingFor r.department with
    | some ceiling => .ok (r, ceiling)
    | none => .error (.missingCeiling r.department)

/-! ## One employee -/

/-- What is decided about one employee. -/
structure Outcome where
  snapshot : Snapshot
  entries : List PlanEntry
  suppressed : List Suppressed
  warnings : List Warning

/-- An entry, taken as written. -/
def entry (kind : EntryKind) (mode : RunMode) (recipients : Recipients) (s : Snapshot) :
    PlanEntry :=
  { kind, mode, recipients, snapshot := s, recipientGap := recipients.isEmpty
    statePersisted := true }

/-- The warning about an entry without recipients. -/
def gapWarnings (e : PlanEntry) : List Warning :=
  if e.recipientGap then [.recipientGap e.snapshot.employee e.snapshot.department] else []

/-- The entry and the warnings when its marker is kept in the ledger. -/
def marked {σ : Type} (b : Backend σ) (r : OvertimeRecord) (marker : Marker) (e : PlanEntry)
    (l : Ledger σ) : (PlanEntry × List Warning) × Ledger σ :=
  match l.markNotified b r.employee r.month marker with
  | (.ok (), l) => ((e, gapWarnings e), l)
  | (.error f, l) =>
    (({ e with statePersisted := false },
      gapWarnings e ++ [.stateWriteFailed r.employee marker f.message]), l)

/-- The outcome of a run on everyone. -/
def forcedOutcome (c : Config) (r : OvertimeRecord) (s : Snapshot) : Outcome :=
  let e := entry .forced .forced
    (c.recipientsOf r.department r.employee r.identity .forced s.severity) s
  { snapshot := s, entries := [e], suppressed := [], warnings := gapWarnings e }

/-- The ordinary part of a run on steps newly reached. -/
def ordinaryOutcome {σ : Type} (b : Backend σ) (c : Config) (r : OvertimeRecord) (s : Snapshot)
    (l : Ledger σ) : Outcome × Ledger σ :=
  let quiet (reason : SuppressReason) : Outcome :=
    { snapshot := s, entries := []
      suppressed := [{ employee := r.employee, percent := s.percent, reason }], warnings := [] }
  if s.severity.isNotifiable then
    match l.hasNotified b r.employee r.month (.level s.severity) with
    | (true, l) => (quiet (.alreadyNotified s.severity), l)
    | (false, l) =>
      let e := entry .ordinary .threshold
        (c.recipientsOf r.department r.employee r.identity .threshold s.severity) s
      let m := marked b r (.level s.severity) e l
      ({ snapshot := s, entries := [m.1.1], suppressed := [], warnings := m.1.2 }, m.2)
  else (quiet .belowThreshold, l)

/-- The employee has an identity and has reached the threshold of direct notice. -/
def escalationIdentity? (c : Config) (r : OvertimeRecord) (s : Snapshot) : Option String :=
  if c.selfNotify.enabled && c.selfNotify.threshold.le s.percent then r.identity else none

/-- The outcome with the direct notice to the employee, if it is due and was not sent. -/
def withEscalation {σ : Type} (b : Backend σ) (c : Config) (r : OvertimeRecord)
    (o : Outcome × Ledger σ) : Outcome × Ledger σ :=
  match escalationIdentity? c r o.1.snapshot with
  | none => o
  | some identity =>
    match o.2.hasNotified b r.employee r.month .selfEscalation with
    | (true, l) => (o.1, l)
    | (false, l) =>
      let e := entry .selfEscalation .threshold (.onlyEmployee identity) o.1.snapshot
      let m := marked b r .selfEscalation e l
      ({ o.1 with entries := o.1.entries ++ [m.1.1], warnings := o.1.warnings ++ m.1.2 }, m.2)

/-- What a run decides about one record. -/
def outcome {σ : Type} (b : Backend σ) (c : Config) (mode : RunMode) (r : OvertimeRecord)
    (s : Snapshot) (l : Ledger σ) : Outcome × Ledger σ :=
  match mode with
  | .forced => (forcedOutcome c r s, l)
  | .threshold => withEscalation b c r (ordinaryOutcome b c r s l)

/-! ## The whole run -/

/-- The outcomes in record order. A ceiling of zero breaks the run off where it stands. -/
def outcomes {σ : Type} (b : Backend σ) (c : Config) (mode : RunMode) :
    List (OvertimeRecord × UInt32) → Ledger σ → Except Violation (List Outcome) × Ledger σ
  | [], l => (.ok [], l)
  | (r, ceiling) :: rest, l =>
    match Snapshot.ofRecord r ceiling with
    | .error v => (.error v, l)
    | .ok s =>
      let o := outcome b c mode r s l
      let more := outcomes b c mode rest o.2
      (more.1.map (o.1 :: ·), more.2)

/-- The report of outcomes. Warnings about reading state come first: they explain any duplicate
that follows. -/
def report (runId : String) (month : Month) (decision : RunDecision)
    (stateWarnings intakeWarnings : List Warning) (os : List Outcome) : Report :=
  { runId, month, decision
    entries := os.flatMap (·.entries)
    suppressed := os.flatMap (·.suppressed)
    evaluated := os.map (·.snapshot)
    warnings := stateWarnings ++ intakeWarnings ++ os.flatMap (·.warnings) }

/-- One run over the rows of the month of `now`. -/
def run {σ : Type} (b : Backend σ) (c : Config) (runId : String) (now : Moment)
    (decision : RunDecision) (rows : List RawRow) (l : Ledger σ) :
    Except Failure Report × Ledger σ :=
  let month := now.toMonth
  let taken := intake month rows
  match withCeilings c taken.records with
  | .error f => (.error f, l)
  | .ok work =>
    match outcomes b c decision.mode work l with
    | (.error v, l) => (.error (.violation v), l)
    | (.ok os, l) =>
      let d := l.drain
      (.ok (report runId month decision d.1 taken.warnings os), d.2)

end Planner

end OvertimeNotice
