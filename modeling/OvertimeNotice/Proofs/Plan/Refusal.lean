import OvertimeNotice.Proofs.Plan.Accepted
import OvertimeNotice.Proofs.State.Calls

/-!
# Runs that are refused

Where no ceiling is zero, a run is refused for one reason only: an accepted record of a department
without a ceiling. It is refused before anyone is evaluated, so nothing was asked of the backend.

* `Uncovered`, `FirstUncovered`: the reason, said of the rows.
* `withCeilings_eq_error_iff`: the first record without a ceiling is the one that is named.
* `run_refused_iff`: when a run is refused, what is named, and what is left behind.
-/

namespace OvertimeNotice

namespace Planner

open RawRow (TakenAfter)

/-- Some accepted record is of a department without a ceiling. -/
def Uncovered (c : Config) (month : Month) (rows : List RawRow) : Prop :=
  ∃ before row after r, rows = before ++ row :: after ∧ TakenAfter month before row r ∧
    c.ceilingFor r.department = none

/-- The first such record in row order. -/
def FirstUncovered (c : Config) (month : Month) (rows : List RawRow) (r : OvertimeRecord) : Prop :=
  ∃ before row after, rows = before ++ row :: after ∧ TakenAfter month before row r ∧
    c.ceilingFor r.department = none ∧ ¬Uncovered c month before

variable {σ : Type} {b : Backend σ} {c : Config} {month : Month} {rows : List RawRow}
  {records : List OvertimeRecord} {f : Failure}

theorem mem_records_iff {r : OvertimeRecord} : r ∈ (intake month rows).records ↔
    ∃ before row after, rows = before ++ row :: after ∧ TakenAfter month before row r := by
  constructor
  · intro h
    obtain ⟨rs, rs', hrs⟩ := List.append_of_mem h
    obtain ⟨before, row, after, hrows, htaken, -⟩ := taken_of_records hrs
    exact ⟨before, row, after, hrows, htaken⟩
  · rintro ⟨before, row, after, rfl, htaken⟩
    exact (records_of_taken htaken after).subset (by simp)

theorem uncovered_iff : Uncovered c month rows ↔
    ∃ r ∈ (intake month rows).records, c.ceilingFor r.department = none := by
  constructor
  · rintro ⟨before, row, after, r, hrows, htaken, hnone⟩
    exact ⟨r, mem_records_iff.mpr ⟨before, row, after, hrows, htaken⟩, hnone⟩
  · rintro ⟨r, hr, hnone⟩
    obtain ⟨before, row, after, hrows, htaken⟩ := mem_records_iff.mp hr
    exact ⟨before, row, after, r, hrows, htaken, hnone⟩

/-- The first record without a ceiling is named. -/
theorem withCeilings_eq_error_iff : withCeilings c records = .error f ↔
    ∃ rs r rs', records = rs ++ r :: rs' ∧ (∀ s ∈ rs, c.ceilingFor s.department ≠ none) ∧
      c.ceilingFor r.department = none ∧ f = .missingCeiling r.department := by
  induction records with
  | nil => simp [withCeilings, pure, Except.pure]
  | cons r rs ih =>
    rw [withCeilings_cons]
    cases hc : c.ceilingFor r.department with
    | none =>
      constructor
      · intro h
        exact ⟨[], r, rs, rfl, by simp, hc, (Except.error.inj h).symm⟩
      · rintro ⟨_ | ⟨s, rs₁⟩, r', rs', heq, hcovered, -, rfl⟩
        · rw [(List.cons.inj heq).1]
        · rw [(List.cons.inj heq).1] at hc
          exact absurd hc (hcovered s (by simp))
    | some ceiling =>
      have hmap : (withCeilings c rs).map ((r, ceiling) :: ·) = .error f ↔
          withCeilings c rs = .error f := by
        cases withCeilings c rs <;> simp [Except.map]
      rw [hmap, ih]
      constructor
      · rintro ⟨rs₁, r', rs', rfl, hcovered, hnone, hf⟩
        refine ⟨r :: rs₁, r', rs', rfl, ?_, hnone, hf⟩
        simp only [List.forall_mem_cons]
        exact ⟨by simp [hc], hcovered⟩
      · rintro ⟨_ | ⟨s, rs₁⟩, r', rs', heq, hcovered, hnone, hf⟩
        · rw [(List.cons.inj heq).1, hnone] at hc
          cases hc
        · exact ⟨rs₁, r', rs', (List.cons.inj heq).2, (List.forall_mem_cons.mp hcovered).2,
            hnone, hf⟩

theorem withCeilings_intake_eq_error_iff : withCeilings c (intake month rows).records = .error f ↔
    ∃ r, FirstUncovered c month rows r ∧ f = .missingCeiling r.department := by
  rw [withCeilings_eq_error_iff]
  constructor
  · rintro ⟨rs, r, rs', hrs, hcovered, hnone, rfl⟩
    obtain ⟨before, row, after, hrows, htaken, rfl⟩ := taken_of_records hrs
    refine ⟨r, ⟨before, row, after, hrows, htaken, hnone, ?_⟩, rfl⟩
    rw [uncovered_iff]
    rintro ⟨s, hs, hsnone⟩
    exact hcovered s hs hsnone
  · rintro ⟨r, ⟨before, row, after, rfl, htaken, hnone, hbefore⟩, rfl⟩
    obtain ⟨rs', hrs'⟩ := records_of_taken htaken after
    refine ⟨_, r, rs', by simpa using hrs'.symm, fun s hs hsnone => ?_, hnone, rfl⟩
    exact hbefore (uncovered_iff.mpr ⟨s, hs, hsnone⟩)

/-- If some accepted record has no ceiling, one of them is the first. -/
theorem exists_firstUncovered_iff :
    (∃ r, FirstUncovered c month rows r) ↔ Uncovered c month rows := by
  constructor
  · rintro ⟨r, before, row, after, hrows, htaken, hnone, -⟩
    exact ⟨before, row, after, r, hrows, htaken, hnone⟩
  · intro h
    cases hw : withCeilings c (intake month rows).records with
    | error f =>
      obtain ⟨r, hr, -⟩ := withCeilings_intake_eq_error_iff.mp hw
      exact ⟨r, hr⟩
    | ok ws =>
      obtain ⟨r, hr, hnone⟩ := uncovered_iff.mp h
      obtain ⟨hmap, hall⟩ := withCeilings_eq_ok hw
      rw [← hmap] at hr
      obtain ⟨w, hw, rfl⟩ := List.mem_map.mp hr
      rw [hall w hw] at hnone
      exact nomatch hnone

/-- **A refused run leaves nothing behind.** Where no ceiling is zero, a run is refused just if some
accepted record is of a department without a ceiling. The department of the first such record is
named, the ledger is as it was before, and nothing was asked of the backend. Any other run gives a
report, whatever the backend answers. -/
theorem run_refused_iff {runId : String} {now : Moment} {decision : RunDecision}
    (b : Backend σ) (hc : ∀ d, c.ceilingFor d ≠ some 0) (rows : List RawRow)
    (l : Ledger (Recorded σ)) :
    let answer := run b.recorded c runId now decision rows l
    (∀ f l', answer = (.error f, l') ↔ l' = l ∧
      ∃ r, FirstUncovered c now.toMonth rows r ∧ f = .missingCeiling r.department) ∧
    ((∃ f l', answer = (.error f, l')) ↔ Uncovered c now.toMonth rows) ∧
    ((∃ rep l', answer = (.ok rep, l')) ↔ ¬Uncovered c now.toMonth rows) := by
  intro answer
  have herror : ∀ f l', answer = (.error f, l') ↔ l' = l ∧
      ∃ r, FirstUncovered c now.toMonth rows r ∧ f = .missingCeiling r.department := by
    intro f l'
    rw [← withCeilings_intake_eq_error_iff]
    cases hw : withCeilings c (intake now.toMonth rows).records with
    | error f' =>
      simp only [answer, run_of_refused hw, Prod.mk.injEq, Except.error.injEq]
      rw [and_comm, eq_comm (a := l)]
    | ok ws =>
      obtain ⟨rep, l₁, hrun⟩ := exists_report (b := b.recorded) hc hw runId decision l
      simp [answer, hrun]
  have hanswer : (∃ f l', answer = (.error f, l')) ↔ Uncovered c now.toMonth rows := by
    rw [← exists_firstUncovered_iff]
    constructor
    · rintro ⟨f, l', h⟩
      obtain ⟨-, r, hr, -⟩ := (herror f l').mp h
      exact ⟨r, hr⟩
    · rintro ⟨r, hr⟩
      exact ⟨_, l, (herror _ l).mpr ⟨rfl, r, hr, rfl⟩⟩
  refine ⟨herror, hanswer, ?_⟩
  rw [← hanswer]
  obtain ⟨e, l'⟩ := answer
  cases e <;> simp

/-- Ann could be evaluated. The rows of department 999 do not count, one being a second row of Ann
and the other without an identifier. -/
private def uneven : RunRequest :=
  let row (employee department : String) : RawRow :=
    { employee, name := "Ann", department, identity := none, minutes := some 600
      previousMinutes := none }
  { RunRequest.trial 600 600 .threshold with
    config := { Config.sample with defaultCeiling := none }
    rows := [row "1001" "300", row " 1001" "999", row " " "999", row "1002" "888",
      row "1003" "777"] }

private def pending : Ledger (Recorded MemoryMarks) :=
  { Ledger.fresh ⟨{ marks := [], failRead := true, failWrite := true, failPurge := true }, []⟩ with
    warnings := [.recordSkipped "1009" "left over"] }

/-- The same without the two rows that need a ceiling. -/
private def evened : RunRequest := { uneven with rows := uneven.rows.take 3 }

/-- The department of the first record without a ceiling is named, and the ledger still has what was
left over. Without such records there is a report, though the backend answers nothing. -/
theorem run_refused_iff_memory :
    uneven.on Backend.memory.recorded pending = (.error (.missingCeiling "888"), pending) ∧
      ∃ rep l', evened.on Backend.memory.recorded pending = (.ok rep, l') ∧
        rep.entries.map (fun e => (e.snapshot.employee, e.statePersisted)) = [("1001", false)] := by
  have hc : ∀ d, uneven.config.ceilingFor d ≠ some 0 :=
    Config.ceilingFor_ne_zero (by decide +kernel)
  have hanswer : (uneven.on Backend.memory.recorded pending).1 =
      .error (.missingCeiling "888") := by
    decide +kernel
  have hrun : uneven.on Backend.memory.recorded pending =
      (.error (.missingCeiling "888"), (uneven.on Backend.memory.recorded pending).2) :=
    Prod.ext hanswer rfl
  obtain ⟨hl, -⟩ := ((run_refused_iff Backend.memory hc uneven.rows pending).1 _ _).mp hrun
  have hcovered : ¬Uncovered evened.config evened.now.toMonth evened.rows := by
    rw [uncovered_iff]
    decide +kernel
  obtain ⟨rep, l', hrep⟩ : ∃ rep l', evened.on Backend.memory.recorded pending = (.ok rep, l') :=
    (run_refused_iff Backend.memory hc evened.rows pending).2.2.mpr hcovered
  have hentries : (evened.on Backend.memory.recorded pending).1.map
      (fun rep => rep.entries.map fun e => (e.snapshot.employee, e.statePersisted)) =
        .ok [("1001", false)] := by
    decide +kernel
  refine ⟨by rw [hrun, hl], rep, l', hrep, ?_⟩
  rw [hrep] at hentries
  exact Except.ok.inj hentries

end Planner

end OvertimeNotice
