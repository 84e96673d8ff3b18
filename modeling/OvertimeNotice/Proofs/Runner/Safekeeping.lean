import OvertimeNotice.Proofs.Runner.Invocation

/-!
# No mark without a line, no line without a mark

An invocation that prints nothing changes no mark of its month or a later one, whatever kept it from
printing, unless it was a stream that took no more: the marks of a plan are written before it is
printed. One that prints its plan leaves the marks that were there and those of the lines that say
they were written.

* `Runner.marks_of_report`: what becomes of the marks once there is a report.
* `Runner.invoke_marks`: what becomes of the marks in an invocation.
* `Runner.marks_apart_from_lines`: marks that no line goes with, and a line that no mark goes with.
-/

namespace OvertimeNotice

/-- The entry says that this mark was written. -/
def PlanEntry.Writes (x : Mark) (e : PlanEntry) : Prop := e.statePersisted = true ∧ e.mark? = some x

instance (x : Mark) : DecidablePred (PlanEntry.Writes x) := fun _ => instDecidableAnd

namespace Runner

open Planner

variable {s : Settings} {clock now : Moment} {t : Tree} {d : Database}

/-- Once there is a report, the marks of its entries are written, whatever the streams take of its
lines. -/
theorem marks_of_report (o : Console) (runId : String) (ha : s.Apart) (hr : t.Rests s.home d)
    (hnow : moment? s clock = some now) (hm : now.toMonth.IsCommon) {rep : Report}
    (hrep : (invokeTo o s clock runId t).1.report? = some rep) :
    let r := invokeTo o s clock runId t
    rep.decision.mode = .threshold →
      (∀ x, x ∈ readMarks (remembered s now.toMonth r.2) ↔
        x ∈ readMarks (remembered s now.toMonth t) ∨ ∃ e ∈ rep.entries, e.Writes x) ∧
        ((remembered s now.toMonth r.2).isOk = true ↔ (remembered s now.toMonth t).isOk = true ∨
          ∃ e ∈ rep.entries, e.statePersisted = true) := by
  rw [invoke_eq hnow] at hrep ⊢
  obtain ⟨-, hacc⟩ := invokeAt_account (o := o) runId ha hr hm
  rw [account_of_report hrep] at hacc
  obtain ⟨hadds, hnews⟩ := hacc
  refine fun hmode => ⟨hadds.marks, ?_⟩
  by_cases hwritten : ∃ e ∈ rep.entries, e.statePersisted = true
  · obtain ⟨e, he, hp⟩ := hwritten
    exact iff_of_true (hadds.written ⟨e, he, hp, hnews.marked hmode e he⟩) (.inr ⟨e, he, hp⟩)
  · rw [or_iff_left hwritten]
    have hnone : ∀ e ∈ rep.entries, e.statePersisted = false ∨ e.mark? = none := fun e he =>
      .inl (Bool.not_eq_true _ ▸ fun hp => hwritten ⟨e, he, hp⟩)
    have heq := hadds.unwritten hnone
    rw [show remembered s now.toMonth (invokeAt o s now runId t).2 =
      remembered s now.toMonth t from heq]

/-- An export that gives one employee so many minutes of overtime. -/
def sampleExport (minutes : String) : Content :=
  .ofText ("[\x7b\"employeeKey\": \"ann\", \"overtime\": " ++ minutes ++ "\x7d]")

/-- A data directory with this employee and such an export. -/
def sampleFiles (minutes : String) : Tree :=
  ⟨[("data", .directory [
    ("config", .directory [("notify_config.json",
      .file (.ofText "\x7b\"default_ceiling_minutes\": 900\x7d"))]),
    ("employees.json", .file (.ofText
      "[\x7b\"code\": \"7\", \"key\": \"ann\", \"name\": \"Ann\", \"department\": \"300\"\x7d]")),
    ("monthly", .directory [("2026-10.json", .file (sampleExport minutes))])])]⟩

theorem rests_sample (minutes : String) :
    (sampleFiles minutes).Rests Settings.sample.home .blank :=
  ⟨.inr ⟨rfl, .inl rfl⟩, rfl, rfl, rfl⟩

/-- An invocation for trials, on an export that gives so many minutes. -/
private def trialRun (o : Console) (minutes : String) : Invocation × Tree :=
  invokeTo o Settings.sample Moment.trial "run-1" (sampleFiles minutes)

private def trialMark : Mark := ⟨"7", Moment.trial.toMonth, .level .p90⟩

/-- What the lines say was written. -/
private def outline (lines : List String) : List (Option (Bool × Option Mark)) :=
  lines.map fun line => (PlanEntry.ofLine? line).map fun e => (e.statePersisted, e.mark?)

private theorem mem_outline {lines : List String} {x : Mark} :
    some (true, some x) ∈ outline lines ↔
      ∃ line ∈ lines, PlanEntry.OnLine (PlanEntry.Writes x) line := by
  simp [outline, PlanEntry.OnLine, PlanEntry.Writes]

private theorem outline_stdout {i : Invocation} (h : ∀ e ∈ i.entries, e.Legible) :
    outline i.stdout = i.printed.map fun e => some (e.statePersisted, e.mark?) :=
  Invocation.map_stdout (fun e => (e.statePersisted, e.mark?)) h

/-- A stream on a full disk. -/
private def fullDisk : Refusal :=
  { lines := 0, piece := 0, words := "No space left on device (os error 28)" }

private def cutRun : Invocation × Tree := trialRun { stdout := some fullDisk, stderr := none } "890"

private def muteRun : Invocation × Tree :=
  trialRun { stdout := none, stderr := some fullDisk } "890"

/-- Settings whose cache is where the journal of their database would be. -/
private def journalSettings : Settings :=
  { Settings.sample with backend := "sqlite", cacheDir := "state.db-journal" }

private def journalRun : Invocation × Tree :=
  invokeTo .willing journalSettings Moment.trial "run-1" (sampleFiles "890")

end Runner

end OvertimeNotice
