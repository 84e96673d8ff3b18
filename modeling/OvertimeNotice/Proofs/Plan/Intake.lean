import OvertimeNotice.Plan.Planner
import OvertimeNotice.Proofs.Text.Maps

/-!
# Who is evaluated

The records of a run: at most one for an employee, all of the run's month, and each with the
ceiling of its department.

* `intake_sound`: what holds of the accepted records, whatever the rows.
* `withCeilings_eq_ok`: every record is paired with its ceiling.
* `Evaluated`, `decideAll`, `run_eq_ok`: a run that gives a report is one pass over evaluated
  records, in which nothing fails any more.
* `run_of_evaluated`: where records can be evaluated there is a report, whatever the ledger.
* `RunRequest`: a run as it is asked for.
-/

namespace OvertimeNotice

/-- A row that is accepted names an employee and a department and has minutes that fit. -/
theorem RawRow.accept_eq_ok {row : RawRow} {month : Month} {r : OvertimeRecord}
    (h : row.accept month = .ok r) : Text.trim row.employee ≠ "" ∧ Text.trim row.department ≠ "" ∧
      ∃ minutes, row.minutes.bind word? = some minutes ∧ r =
        { employee := Text.trim row.employee, name := row.name
          department := Text.trim row.department
          identity := row.identity.filter fun s => Text.trim s != "", month, minutes
          previousMinutes := row.previousMinutes.bind word? } := by
  rw [RawRow.accept] at h
  split at h
  · exact nomatch h
  split at h
  · exact nomatch h
  split at h
  · exact nomatch h
  split at h
  · exact nomatch h
  · rename_i hemployee hdepartment _ _ hgiven _ _ hword
    exact ⟨hemployee, hdepartment, _, by rw [hgiven, Option.bind_some, hword],
      (Except.ok.inj h).symm⟩

theorem RawRow.month_of_accept {row : RawRow} {month : Month} {r : OvertimeRecord}
    (h : row.accept month = .ok r) : r.month = month := by
  obtain ⟨-, -, _, -, rfl⟩ := accept_eq_ok h
  rfl

namespace Config

variable {c : Config}

/-- No ceiling that passes the checks is zero. -/
theorem ceilingFor_ne_zero (h : c.validate = .ok ()) (department : String) :
    c.ceilingFor department ≠ some 0 := by
  intro hzero
  rw [validate] at h
  split at h
  · exact nomatch h
  · rename_i hdefault
    split at h
    · exact nomatch h
    · rename_i hnone
      rw [zeroCeiling?, Option.map_eq_none_iff, List.find?_eq_none] at hnone
      rw [ceilingFor] at hzero
      cases hf : c.ceilings.find? department with
      | none =>
        rw [hf, Option.none_or] at hzero
        exact hdefault hzero
      | some n =>
        rw [hf, Option.some_or, Option.some.injEq] at hzero
        subst hzero
        exact hnone _ (TextMap.mem_of_lookup hf) rfl

end Config

namespace Planner

/-! ## Accepting rows -/

/-- The accepted records are of one month, and no employee is among them twice. -/
structure Intake.Sound (month : Month) (i : Intake) : Prop where
  month : ∀ r ∈ i.records, r.month = month
  nodup : (i.records.map (·.employee)).Nodup

theorem Intake.sound_add {month : Month} {i : Intake} (h : i.Sound month) (row : RawRow) :
    (i.add month row).Sound month := by
  unfold Intake.add
  split
  case h_1 => exact ⟨h.month, h.nodup⟩
  case h_2 r hr =>
    split
    case isTrue => exact ⟨h.month, h.nodup⟩
    case isFalse hnew =>
      have hnew : ∀ s ∈ i.records, s.employee ≠ r.employee := by simpa using hnew
      refine ⟨fun s hs => ?_, ?_⟩
      · rcases List.mem_append.mp hs with hs | hs
        · exact h.month s hs
        · rw [List.mem_singleton.mp hs]
          exact RawRow.month_of_accept hr
      · rw [List.map_append, List.nodup_append]
        refine ⟨h.nodup, by simp, fun a ha b hb => ?_⟩
        obtain ⟨s, hs, rfl⟩ := List.mem_map.mp ha
        rw [List.map_singleton, List.mem_singleton] at hb
        rw [hb]
        exact hnew s hs

theorem intake_sound (month : Month) (rows : List RawRow) : (intake month rows).Sound month := by
  suffices h : ∀ i : Intake, i.Sound month → (rows.foldl (Intake.add month) i).Sound month from
    h _ ⟨by simp, by simp⟩
  induction rows with
  | nil => exact fun i hi => hi
  | cons row rows ih => exact fun i hi => ih _ (Intake.sound_add hi row)

/-! ## Ceilings -/

theorem withCeilings_cons (c : Config) (r : OvertimeRecord) (rs : List OvertimeRecord) :
    withCeilings c (r :: rs) =
      match c.ceilingFor r.department with
      | some ceiling => (withCeilings c rs).map ((r, ceiling) :: ·)
      | none => .error (.missingCeiling r.department) := by
  rw [withCeilings, List.mapM_cons]
  cases c.ceilingFor r.department with
  | none => rfl
  | some ceiling =>
    cases hs : withCeilings c rs <;> (rw [withCeilings] at hs; rw [hs]; rfl)

/-- Every record is paired with its ceiling, in order. -/
theorem withCeilings_eq_ok {c : Config} {records : List OvertimeRecord}
    {work : List (OvertimeRecord × UInt32)} (h : withCeilings c records = .ok work) :
    work.map (·.1) = records ∧ ∀ w ∈ work, c.ceilingFor w.1.department = some w.2 := by
  induction records generalizing work with
  | nil =>
    obtain rfl : [] = work := Except.ok.inj h
    exact ⟨rfl, by simp⟩
  | cons r rs ih =>
    rw [withCeilings_cons] at h
    cases hc : c.ceilingFor r.department with
    | none => rw [hc] at h; exact nomatch h
    | some ceiling =>
      cases hs : withCeilings c rs with
      | error f => rw [hc, hs] at h; exact nomatch h
      | ok ws =>
        rw [hc, hs] at h
        obtain rfl : (r, ceiling) :: ws = work := Except.ok.inj h
        obtain ⟨hmap, hall⟩ := ih hs
        refine ⟨by rw [List.map_cons, hmap], fun w hw => ?_⟩
        rcases List.mem_cons.mp hw with rfl | hw
        · exact hc
        · exact hall w hw

/-! ## Evaluating -/

/-- Records with their figures, each under the ceiling of its department. -/
structure Evaluated (c : Config) (records : List OvertimeRecord)
    (work : List (OvertimeRecord × Snapshot)) : Prop where
  records : work.map (·.1) = records
  snapshot : ∀ w ∈ work, ∃ ceiling, c.ceilingFor w.1.department = some ceiling ∧
    Snapshot.ofRecord w.1 ceiling = .ok w.2

variable {σ : Type} {b : Backend σ} {c : Config} {mode : RunMode}

/-- The outcomes of evaluated records, in order. -/
def decideAll (b : Backend σ) (c : Config) (mode : RunMode) :
    List (OvertimeRecord × Snapshot) → Ledger σ → List Outcome × Ledger σ
  | [], l => ([], l)
  | (r, s) :: rest, l =>
    let o := outcome b c mode r s l
    let more := decideAll b c mode rest o.2
    (o.1 :: more.1, more.2)

theorem outcomes_eq_ok {ws : List (OvertimeRecord × UInt32)} {l l' : Ledger σ}
    {os : List Outcome} (h : outcomes b c mode ws l = (.ok os, l')) :
    ∃ work, decideAll b c mode work l = (os, l') ∧ work.map (·.1) = ws.map (·.1) ∧
      ∀ v ∈ work, ∃ w ∈ ws, w.1 = v.1 ∧ Snapshot.ofRecord v.1 w.2 = .ok v.2 := by
  induction ws generalizing l os with
  | nil =>
    cases h
    exact ⟨[], rfl, rfl, by simp⟩
  | cons w ws ih =>
    obtain ⟨r, ceiling⟩ := w
    cases hs : Snapshot.ofRecord r ceiling with
    | error v => rw [outcomes, hs] at h; cases h
    | ok s =>
      rw [outcomes, hs] at h
      cases hm : outcomes b c mode ws (outcome b c mode r s l).2 with
      | mk more l₁ =>
        simp only [hm] at h
        cases more with
        | error v => cases h
        | ok os₁ =>
          cases h
          obtain ⟨work, hd, hmap, hall⟩ := ih hm
          refine ⟨(r, s) :: work, by rw [decideAll, hd], ?_, fun v hv => ?_⟩
          · rw [List.map_cons, List.map_cons, hmap]
          · rcases List.mem_cons.mp hv with rfl | hv
            · exact ⟨_, List.mem_cons_self .., rfl, hs⟩
            · obtain ⟨w, hw, hv⟩ := hall v hv
              exact ⟨w, List.mem_cons_of_mem _ hw, hv⟩

/-- Nothing is broken off where every ceiling is positive. -/
theorem outcomes_ne_error {ws : List (OvertimeRecord × UInt32)} (h : ∀ w ∈ ws, w.2 ≠ 0)
    (l : Ledger σ) : ∃ os l', outcomes b c mode ws l = (.ok os, l') := by
  induction ws generalizing l with
  | nil => exact ⟨_, _, rfl⟩
  | cons w ws ih =>
    obtain ⟨r, ceiling⟩ := w
    have hc : ceiling ≠ 0 := h _ (List.mem_cons_self ..)
    obtain ⟨s, hs⟩ : ∃ s, Snapshot.ofRecord r ceiling = .ok s := by
      rw [Snapshot.ofRecord, evaluate, if_neg hc]
      exact ⟨_, rfl⟩
    obtain ⟨os, l', hm⟩ := ih (fun w hw => h w (List.mem_cons_of_mem _ hw))
      (outcome b c mode r s l).2
    refine ⟨(outcome b c mode r s l).1 :: os, l', ?_⟩
    simp only [outcomes, hs, hm]
    rfl

theorem run_of_refused {runId : String} {now : Moment} {decision : RunDecision}
    {rows : List RawRow} {l : Ledger σ} {f : Failure}
    (h : withCeilings c (intake now.toMonth rows).records = .error f) :
    run b c runId now decision rows l = (.error f, l) := by
  simp only [run, h]

/-- A run that finds its ceilings, none of them zero, gives a report. -/
theorem exists_report {now : Moment} {rows : List RawRow} {ws : List (OvertimeRecord × UInt32)}
    (hc : ∀ d, c.ceilingFor d ≠ some 0)
    (h : withCeilings c (intake now.toMonth rows).records = .ok ws) (runId : String)
    (decision : RunDecision) (l : Ledger σ) :
    ∃ rep l', run b c runId now decision rows l = (.ok rep, l') := by
  have hpos : ∀ w ∈ ws, w.2 ≠ 0 := by
    intro w hw hz
    exact hc _ (hz ▸ (withCeilings_eq_ok h).2 w hw)
  obtain ⟨os, l', ho⟩ : ∃ os l', outcomes b c decision.mode ws l = (.ok os, l') :=
    outcomes_ne_error hpos l
  simp only [run, h, ho]
  exact ⟨_, _, rfl⟩

/-- Figures are about the employee and the month of their record. -/
theorem subject_of_ofRecord {r : OvertimeRecord} {ceiling : UInt32} {s : Snapshot}
    (h : Snapshot.ofRecord r ceiling = .ok s) : s.employee = r.employee ∧ s.month = r.month := by
  obtain ⟨e, -, rfl⟩ := Snapshot.ofRecord_eq_ok h
  exact ⟨rfl, rfl⟩

/-- Evaluated records of one month, one for an employee. -/
structure WorkOf (month : Month) (work : List (OvertimeRecord × Snapshot)) : Prop where
  month : ∀ w ∈ work, w.1.month = month
  subject : ∀ w ∈ work, w.2.employee = w.1.employee ∧ w.2.month = w.1.month
  nodup : (work.map (·.2.employee)).Nodup

theorem Evaluated.workOf {month : Month} {rows : List RawRow}
    {work : List (OvertimeRecord × Snapshot)}
    (h : Evaluated c (intake month rows).records work) : WorkOf month work := by
  obtain ⟨hmonth, hnodup⟩ := intake_sound month rows
  rw [← h.records] at hmonth hnodup
  have hs : ∀ w ∈ work, w.2.employee = w.1.employee ∧ w.2.month = w.1.month := fun w hw => by
    obtain ⟨_, -, he⟩ := h.snapshot w hw
    exact subject_of_ofRecord he
  refine ⟨fun w hw => hmonth _ (List.mem_map_of_mem hw), hs, ?_⟩
  have hmap : work.map (·.2.employee) = (work.map (·.1)).map (·.employee) := by
    rw [List.map_map]
    exact List.map_congr_left fun w hw => (hs w hw).1
  rw [hmap]
  exact hnodup

theorem WorkOf.tail {month : Month} {w : OvertimeRecord × Snapshot}
    {work : List (OvertimeRecord × Snapshot)} (h : WorkOf month (w :: work)) : WorkOf month work :=
  ⟨fun v hv => h.month v (List.mem_cons_of_mem _ hv),
    fun v hv => h.subject v (List.mem_cons_of_mem _ hv), (List.nodup_cons.mp h.nodup).2⟩

/-- A run with a report evaluates the accepted records, decides on them one after the other, and
hands out the warnings of the ledger. -/
theorem run_eq_ok {runId : String} {now : Moment} {decision : RunDecision} {rows : List RawRow}
    {l l' : Ledger σ} {rep : Report} (h : run b c runId now decision rows l = (.ok rep, l')) :
    let taken := intake now.toMonth rows
    ∃ work, Evaluated c taken.records work ∧
      let decided := decideAll b c decision.mode work l
      rep = report runId now.toMonth decision decided.2.drain.1 taken.warnings decided.1 ∧
        l' = decided.2.drain.2 := by
  rw [run] at h
  cases hw : withCeilings c (intake now.toMonth rows).records with
  | error f => simp only [hw] at h; cases h
  | ok ws =>
    simp only [hw] at h
    cases ho : outcomes b c decision.mode ws l with
    | mk r l₁ =>
      simp only [ho] at h
      cases r with
      | error v => cases h
      | ok os =>
        cases h
        obtain ⟨work, hd, hmap, hall⟩ := outcomes_eq_ok ho
        obtain ⟨hrecords, hceiling⟩ := withCeilings_eq_ok hw
        refine ⟨work, ⟨hmap.trans hrecords, fun v hv => ?_⟩, by rw [hd], by rw [hd]⟩
        obtain ⟨w, hm, hr, hs⟩ := hall v hv
        exact ⟨w.2, hr ▸ hceiling w hm, hs⟩

theorem outcomes_of_evaluated (mode : RunMode) {work : List (OvertimeRecord × Snapshot)}
    (h : ∀ w ∈ work, ∃ ceiling, c.ceilingFor w.1.department = some ceiling ∧
      Snapshot.ofRecord w.1 ceiling = .ok w.2) (l : Ledger σ) :
    ∃ ws, withCeilings c (work.map (·.1)) = .ok ws ∧ outcomes b c mode ws l =
      (.ok (decideAll b c mode work l).1, (decideAll b c mode work l).2) := by
  induction work generalizing l with
  | nil => exact ⟨[], rfl, rfl⟩
  | cons w work ih =>
    obtain ⟨r, s⟩ := w
    obtain ⟨⟨ceiling, hc, hs⟩, hrest⟩ := List.forall_mem_cons.mp h
    obtain ⟨ws, hws, ho⟩ := ih hrest (outcome b c mode r s l).2
    refine ⟨(r, ceiling) :: ws, ?_, ?_⟩
    · rw [List.map_cons, withCeilings_cons, hc, hws]
      rfl
    · simp only [outcomes, hs, ho]
      rfl

/-- Whether a run gives a report depends on nothing but its configuration and its records. -/
theorem run_of_evaluated {now : Moment} {rows : List RawRow}
    {work : List (OvertimeRecord × Snapshot)}
    (h : Evaluated c (intake now.toMonth rows).records work) (runId : String)
    (decision : RunDecision) (l : Ledger σ) :
    let decided := decideAll b c decision.mode work l
    run b c runId now decision rows l = (.ok (report runId now.toMonth decision decided.2.drain.1
      (intake now.toMonth rows).warnings decided.1), decided.2.drain.2) := by
  obtain ⟨ws, hws, ho⟩ := outcomes_of_evaluated (b := b) decision.mode h.snapshot l
  rw [h.records] at hws
  simp only [run, hws, ho]

end Planner

/-- All that a run is given besides a ledger. -/
structure RunRequest where
  config : Config
  runId : String
  now : Moment
  decision : RunDecision
  rows : List RawRow

/-- The run over a ledger. -/
def RunRequest.on {σ : Type} (b : Backend σ) (q : RunRequest) (l : Ledger σ) :
    Except Failure Report × Ledger σ :=
  Planner.run b q.config q.runId q.now q.decision q.rows l

theorem RunRequest.exists_of_map_on {σ α : Type} {b : Backend σ} {q : RunRequest} {l : Ledger σ}
    {f : Report → α} {a : α} (h : (q.on b l).1.map f = .ok a) :
    ∃ rep l', q.on b l = (.ok rep, l') ∧ f rep = a := by
  generalize q.on b l = ran at h
  obtain ⟨answer, l'⟩ := ran
  cases answer with
  | error e => exact nomatch h
  | ok rep => exact ⟨rep, l', rfl, Except.ok.inj h⟩

/-- The Monday in the window of the sample configuration, for trials. -/
def Moment.trial : Moment :=
  { date := ⟨2026, 10, 5, by decide, by decide, by decide⟩
    hour := 9, minute := 0, second := 0
    hour_le := by decide, minute_le := by decide, second_le := by decide }

/-- A run about one employee, for trials. -/
def RunRequest.trial (ceiling : UInt32) (minutes : Int) (decision : RunDecision) : RunRequest :=
  { config := { Config.sample with defaultCeiling := some ceiling, ceilings := TextMap.empty }
    runId := "trial"
    now := .trial
    decision
    rows := [{ employee := "1001", name := "Ann", department := "300"
               identity := some "ann@example.com", minutes := some minutes
               previousMinutes := none }] }

end OvertimeNotice
