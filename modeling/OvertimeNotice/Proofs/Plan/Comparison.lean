import OvertimeNotice.Proofs.Plan.Intake

/-!
# Runs without a comparison

What is known of the month before serves the comparison with it, and nothing else. A run on rows
without it decides and records the same, and its report differs in the comparison alone.

* `Report.uncompared`: a report without the comparisons.
* `Planner.run_uncompared`: the run on rows without the figures that they need.
-/

namespace OvertimeNotice

/-! ## Without the month before -/

def RawRow.uncompared (r : RawRow) : RawRow := { r with previousMinutes := none }

def OvertimeRecord.uncompared (r : OvertimeRecord) : OvertimeRecord :=
  { r with previousMinutes := none }

def Snapshot.uncompared (s : Snapshot) : Snapshot :=
  { s with previousMinutes := none, percentVsLast := 0 }

def PlanEntry.uncompared (e : PlanEntry) : PlanEntry := { e with snapshot := e.snapshot.uncompared }

/-- The report without what it says of the month before. -/
def Report.uncompared (r : Report) : Report :=
  { r with
    entries := r.entries.map PlanEntry.uncompared
    evaluated := r.evaluated.map Snapshot.uncompared }

theorem RawRow.accept_uncompared (r : RawRow) (month : Month) :
    r.uncompared.accept month = (r.accept month).map OvertimeRecord.uncompared := by
  obtain ⟨employee, name, department, identity, minutes, previous⟩ := r
  unfold accept uncompared
  split
  · rfl
  · split
    · rfl
    · cases minutes with
      | none => rfl
      | some m =>
        simp only
        cases word? m <;> rfl

/-- Without a figure there is nothing to compare with. -/
theorem Snapshot.ofRecord_uncompared (r : OvertimeRecord) (ceiling : UInt32) :
    ofRecord r.uncompared ceiling = (ofRecord r ceiling).map uncompared := by
  unfold ofRecord
  rw [show r.uncompared.minutes = r.minutes from rfl]
  cases evaluate r.minutes ceiling <;> rfl

namespace Planner

variable {σ : Type} (b : Backend σ) (c : Config) (r : OvertimeRecord) (s : Snapshot)

/-! ## Accepting rows -/

def Intake.uncompared (i : Intake) : Intake :=
  { i with records := i.records.map OvertimeRecord.uncompared }

theorem Intake.add_uncompared (month : Month) (i : Intake) (row : RawRow) :
    i.uncompared.add month row.uncompared = (i.add month row).uncompared := by
  unfold Intake.add
  rw [row.accept_uncompared]
  cases row.accept month with
  | error f => rfl
  | ok r =>
    have hany : (i.uncompared.records.any fun s => s.employee == r.uncompared.employee) =
        i.records.any fun s => s.employee == r.employee := by
      rw [Intake.uncompared, List.any_map]
      rfl
    simp only [Except.map, hany]
    split
    · rfl
    · simp only [Intake.uncompared, List.map_append, List.map_cons, List.map_nil]

theorem intake_uncompared (month : Month) (rows : List RawRow) :
    intake month (rows.map RawRow.uncompared) = (intake month rows).uncompared := by
  have hfold : ∀ i : Intake, (rows.map RawRow.uncompared).foldl (Intake.add month) i.uncompared =
      (rows.foldl (Intake.add month) i).uncompared := by
    induction rows with
    | nil => exact fun _ => rfl
    | cons row rows ih =>
      intro i
      rw [List.map_cons, List.foldl_cons, List.foldl_cons, Intake.add_uncompared, ih]
  exact hfold ⟨[], []⟩

theorem withCeilings_uncompared (records : List OvertimeRecord) :
    withCeilings c (records.map OvertimeRecord.uncompared) =
      (withCeilings c records).map fun work => work.map fun w => (w.1.uncompared, w.2) := by
  induction records with
  | nil => rfl
  | cons r records ih =>
    rw [List.map_cons, withCeilings_cons, withCeilings_cons, ih,
      show r.uncompared.department = r.department from rfl]
    cases c.ceilingFor r.department with
    | none => rfl
    | some ceiling => cases withCeilings c records <;> rfl

/-! ## One employee -/

def Outcome.uncompared (o : Outcome) : Outcome :=
  { o with snapshot := o.snapshot.uncompared, entries := o.entries.map PlanEntry.uncompared }

theorem marked_uncompared (marker : Marker) (e : PlanEntry) (l : Ledger σ) :
    marked b r.uncompared marker e.uncompared l =
      (((marked b r marker e l).1.1.uncompared, (marked b r marker e l).1.2),
        (marked b r marker e l).2) := by
  unfold marked
  rw [show r.uncompared.employee = r.employee from rfl,
    show r.uncompared.month = r.month from rfl]
  rcases l.markNotified b r.employee r.month marker with ⟨_ | _, l'⟩ <;> rfl

theorem ordinaryOutcome_uncompared (l : Ledger σ) :
    ordinaryOutcome b c r.uncompared s.uncompared l =
      ((ordinaryOutcome b c r s l).1.uncompared, (ordinaryOutcome b c r s l).2) := by
  unfold ordinaryOutcome
  rw [show s.uncompared.severity = s.severity from rfl,
    show r.uncompared.employee = r.employee from rfl,
    show r.uncompared.month = r.month from rfl]
  split
  · rcases l.hasNotified b r.employee r.month (.level s.severity) with ⟨_ | _, l'⟩
    · have hm := marked_uncompared b r (.level s.severity) (entry .ordinary .threshold
        (c.recipientsOf r.department r.employee r.identity .threshold s.severity) s) l'
      exact congrArg (fun m : (PlanEntry × List Warning) × Ledger σ =>
        (Outcome.mk s.uncompared [m.1.1] [] m.1.2, m.2)) hm
    · rfl
  · rfl

theorem withEscalation_uncompared (o : Outcome × Ledger σ) :
    withEscalation b c r.uncompared (o.1.uncompared, o.2) =
      ((withEscalation b c r o).1.uncompared, (withEscalation b c r o).2) := by
  unfold withEscalation
  rw [show escalationIdentity? c r.uncompared o.1.uncompared.snapshot =
      escalationIdentity? c r o.1.snapshot from rfl,
    show r.uncompared.employee = r.employee from rfl,
    show r.uncompared.month = r.month from rfl]
  cases escalationIdentity? c r o.1.snapshot with
  | none => rfl
  | some identity =>
    simp only
    rcases o.2.hasNotified b r.employee r.month .selfEscalation with ⟨_ | _, l'⟩
    · have hm := marked_uncompared b r .selfEscalation
        (entry .selfEscalation .threshold (.onlyEmployee identity) o.1.snapshot) l'
      simp only [Outcome.uncompared, List.map_append, List.map_cons, List.map_nil]
      exact congrArg (fun m : (PlanEntry × List Warning) × Ledger σ =>
        (Outcome.mk o.1.snapshot.uncompared (o.1.entries.map PlanEntry.uncompared ++ [m.1.1])
          o.1.suppressed (o.1.warnings ++ m.1.2), m.2)) hm
    · rfl

theorem outcome_uncompared (mode : RunMode) (l : Ledger σ) :
    outcome b c mode r.uncompared s.uncompared l =
      ((outcome b c mode r s l).1.uncompared, (outcome b c mode r s l).2) := by
  cases mode with
  | forced => rfl
  | threshold =>
    rw [outcome, ordinaryOutcome_uncompared]
    exact withEscalation_uncompared b c r (ordinaryOutcome b c r s l)

/-! ## The whole run -/

theorem outcomes_uncompared (mode : RunMode) (work : List (OvertimeRecord × UInt32))
    (l : Ledger σ) : outcomes b c mode (work.map fun w => (w.1.uncompared, w.2)) l =
      ((outcomes b c mode work l).1.map (List.map Outcome.uncompared),
        (outcomes b c mode work l).2) := by
  induction work generalizing l with
  | nil => rfl
  | cons w work ih =>
    obtain ⟨r, ceiling⟩ := w
    simp only [List.map_cons, outcomes, Snapshot.ofRecord_uncompared]
    cases Snapshot.ofRecord r ceiling with
    | error v => rfl
    | ok s =>
      simp only [Except.map, outcome_uncompared, ih]
      cases (outcomes b c mode work (outcome b c mode r s l).2).1 <;> rfl

theorem report_uncompared (runId : String) (month : Month) (decision : RunDecision)
    (ws ws' : List Warning) (os : List Outcome) :
    report runId month decision ws ws' (os.map Outcome.uncompared) =
      (report runId month decision ws ws' os).uncompared := by
  simp only [report, Report.uncompared, List.flatMap_map, List.map_map, List.map_flatMap]
  rfl

/-- A run on rows without the figures of the month before reports the same but for the comparison,
and leaves the same ledger. -/
theorem run_uncompared (runId : String) (now : Moment) (decision : RunDecision)
    (rows : List RawRow) (l : Ledger σ) :
    run b c runId now decision (rows.map RawRow.uncompared) l =
      ((run b c runId now decision rows l).1.map Report.uncompared,
        (run b c runId now decision rows l).2) := by
  unfold run
  simp only [intake_uncompared]
  have hwork := withCeilings_uncompared c (intake now.toMonth rows).records
  rw [show (intake now.toMonth rows).uncompared.records =
    (intake now.toMonth rows).records.map OvertimeRecord.uncompared from rfl, hwork]
  cases withCeilings c (intake now.toMonth rows).records with
  | error f => rfl
  | ok work =>
    simp only [Except.map, outcomes_uncompared]
    rcases outcomes b c decision.mode work l with ⟨_ | os, l'⟩
    · rfl
    · simp only [report_uncompared]
      rfl

end Planner

end OvertimeNotice
