import OvertimeNotice.Proofs.Plan.Apart
import OvertimeNotice.Proofs.Plan.News
import OvertimeNotice.Proofs.Plan.Reached
import OvertimeNotice.Proofs.Plan.Separate
import OvertimeNotice.Proofs.State.Interchange

/-!
# The steps of an employee only climb

Runs of one month over one backend, each with a new ledger: what was reported by the earlier ones
holds back the later ones. So where an employee's minutes never go down, the steps reported of them
go up, and the last one reported is where they are.

* `climb`: what is reported of severities reached one after the other; `climb_ascends`,
  `getLast?_climb`: it goes up, and ends where they are.
* `Planner.Steps.held`: what a backend that keeps a set of marks holds after the steps of a run.
* `Planner.Reported`: what is held of an employee is what was reported; `Reported.on`: one run keeps
  it so.
* `reports_climb`: what the runs report of an employee.
* `World.steps_ascend`: runs over a database.
-/

namespace OvertimeNotice

/-! ## Severities reached one after the other -/

section

variable {past seen more l : List Severity} {s : Severity}

/-- What is reported when severities are reached one after the other: those that are steps, each
the first time, if it is not of the `past`. -/
def climb (past : List Severity) : List Severity → List Severity
  | [] => []
  | s :: seen =>
    if s.isNotifiable = true ∧ s ∉ past then s :: climb (past ++ [s]) seen else climb past seen

theorem climb_append : climb past (seen ++ more) =
    climb past seen ++ climb (past ++ climb past seen) more := by
  induction seen generalizing past with
  | nil => simp [climb]
  | cons s seen ih =>
    rw [List.cons_append, climb, climb, ih, ih]
    split <;> simp

theorem mem_climb {x : Severity} :
    x ∈ climb past seen ↔ x ∈ seen ∧ x.isNotifiable = true ∧ x ∉ past := by
  induction seen generalizing past with
  | nil => simp [climb]
  | cons s seen ih =>
    rw [climb]
    by_cases hx : x = s
    · subst hx
      split <;> simp_all
    · split <;> simp [ih, hx]

/-- What is reported of severities that never go down goes up. -/
theorem climb_ascends (h : seen.Pairwise (· ≤ ·)) : (climb past seen).Pairwise (· < ·) := by
  induction seen generalizing past with
  | nil => exact .nil
  | cons s seen ih =>
    obtain ⟨hs, hseen⟩ := List.pairwise_cons.mp h
    rw [climb]
    split
    · refine List.pairwise_cons.mpr ⟨fun x hx => ?_, ih hseen⟩
      obtain ⟨hx, -, hnew⟩ := mem_climb.mp hx
      have hne : x ≠ s := fun h => hnew (List.mem_append_right _ (List.mem_singleton.mpr h))
      exact Severity.lt_of_le_of_ne (hs x hx) hne.symm
    · exact ih hseen

theorem getLast?_of_ascending (h : l.Pairwise (· < ·)) (hs : s ∈ l) (hle : ∀ x ∈ l, x ≤ s) :
    l.getLast? = some s := by
  obtain ⟨front, back, rfl⟩ := List.append_of_mem hs
  cases back with
  | nil => simp
  | cons x back =>
    have hlt : s < x := List.rel_of_pairwise_cons (List.pairwise_append.mp h).2.1 List.mem_cons_self
    exact absurd hlt (Nat.not_lt.mpr (hle x (by simp)))

/-- What is reported ends where the severities are, if that is a step. -/
theorem getLast?_climb (h : (seen ++ [s]).Pairwise (· ≤ ·)) (hs : s.isNotifiable = true) :
    (climb [] (seen ++ [s])).getLast? = some s := by
  have hmem : s ∈ climb [] (seen ++ [s]) := mem_climb.mpr ⟨by simp, hs, by simp⟩
  refine getLast?_of_ascending (climb_ascends h) hmem fun x hx => ?_
  rcases List.mem_append.mp (mem_climb.mp hx).1 with hx | hx
  · exact (List.pairwise_append.mp h).2.2 x hx s List.mem_cons_self
  · exact List.mem_singleton.mp hx ▸ Severity.le_refl _

/-- There are five steps. -/
theorem length_climb_le (h : (climb past seen).Pairwise (· < ·)) :
    (climb past seen).length ≤ 5 := by
  have hnodup : (climb past seen).Nodup := h.imp fun {a b} hlt => by
    rintro rfl
    exact Nat.lt_irrefl _ hlt
  have hsteps : climb past seen ⊆ Severity.steps := fun s hs =>
    Severity.mem_steps.mpr (mem_climb.mp hs).2.1
  exact (hnodup.subperm hsteps).length_le

end

/-! ## What a report says of the steps of an employee -/

namespace Report

/-- The severity of an employee, if they were evaluated. -/
def severityOf? (rep : Report) (employee : String) : Option Severity :=
  (rep.evaluated.find? fun s => s.employee == employee).map (·.severity)

/-- The severities of the ordinary entries on an employee, in order. -/
def stepsOf (rep : Report) (employee : String) : List Severity :=
  ((rep.entriesFor employee).filter fun e => e.kind == .ordinary).map (·.snapshot.severity)

end Report

/-- The records that a run accepts. -/
def RunRequest.accepted (q : RunRequest) : List OvertimeRecord :=
  (Planner.intake q.now.toMonth q.rows).records

/-- From one run to a later one the employee stays in a department and loses no minutes. -/
def RunRequest.Rises (employee : String) (q q' : RunRequest) : Prop :=
  ∀ r ∈ q.accepted, ∀ r' ∈ q'.accepted, r.employee = employee → r'.employee = employee →
    r'.department = r.department ∧ r.minutes ≤ r'.minutes

instance (employee : String) (q q' : RunRequest) : Decidable (RunRequest.Rises employee q q') :=
  inferInstanceAs (Decidable (∀ r ∈ q.accepted, ∀ r' ∈ q'.accepted, r.employee = employee →
    r'.employee = employee → r'.department = r.department ∧ r.minutes ≤ r'.minutes))

namespace Planner

variable {σ : Type} {b : Backend σ} {q : RunRequest} {l l' : Ledger σ} {rep : Report}
  {employee : String} {past : List Severity}

/-- Of the entries that are due, the ordinary one has the severity of the employee. -/
theorem ordinary_due {c : Config} {sent : MonthMarks} {r : OvertimeRecord} {s : Snapshot} :
    ((stepEntries c sent r s ++ noticeEntries c sent r s).filter fun e =>
      e.kind == .ordinary).map (·.snapshot.severity) =
      if StepDue sent s then [s.severity] else [] := by
  have hnotice : (noticeEntries c sent r s).filter (fun e => e.kind == .ordinary) = [] := by
    refine List.filter_eq_nil_iff.mpr fun e he => ?_
    rw [(mem_noticeEntries he).1]
    decide
  rw [List.filter_append, hnotice, List.append_nil, stepEntries]
  split <;> rfl

/-- A report has the step that an employee has reached, if it was not sent before. -/
theorem stepsOf_eq (hm : q.decision.mode = .threshold) (h : q.on b l = (.ok rep, l'))
    (hpast : ∀ s : Severity, s.isNotifiable = true →
      ((employee, .level s) ∈ l.standing b q.now.toMonth ↔ s ∈ past)) :
    rep.stepsOf employee = climb past (rep.severityOf? employee).toList := by
  obtain ⟨mine, hev, hemployee, habout⟩ := about_eq_of_evaluated hm h employee
  rw [Report.about, PersonalReport.mk.injEq] at habout
  obtain ⟨hfigures, -, hentries⟩ := habout
  have hseverity : rep.severityOf? employee = (mine.map (·.2.severity)).head? := by
    rw [Report.severityOf?, ← List.head?_filter, hfigures, ← List.head?_map, List.map_map]
    rfl
  have hsteps : rep.stepsOf employee =
      (((rep.entriesFor employee).map PlanEntry.planned).filter fun e =>
        e.kind == .ordinary).map (·.snapshot.severity) := by
    rw [List.filter_map, List.map_map]
    rfl
  rw [hsteps, hentries, hseverity]
  -- there is one record of the employee at most
  have hrecords := hev.records
  rw [filter_records] at hrecords
  generalize (RawRow.firstOf? q.now.toMonth employee q.rows).bind
    (fun row => (row.accept q.now.toMonth).toOption) = record at hrecords
  cases record with
  | none =>
    rw [List.map_eq_nil_iff.mp hrecords]
    rfl
  | some r =>
    obtain ⟨w, rfl, -⟩ := List.map_eq_singleton_iff.mp hrecords
    have hdue : StepDue (l.standing b q.now.toMonth) w.2 ↔
        w.2.severity.isNotifiable = true ∧ w.2.severity ∉ past := by
      rw [StepDue, hemployee w List.mem_cons_self]
      exact and_congr_right fun hn => (hpast _ hn).not
    rw [List.flatMap_singleton, ordinary_due]
    simp only [hdue]
    rfl

theorem mem_stepsOf (h : q.on b l = (.ok rep, l')) {s : Severity} :
    s ∈ rep.stepsOf employee ↔
      ⟨employee, q.now.toMonth, .level s⟩ ∈ rep.entries.filterMap PlanEntry.mark? := by
  have hmonth : ∀ x ∈ rep.entries.filterMap PlanEntry.mark?, x.month = q.now.toMonth := by
    obtain ⟨es, asked, l₁, hsteps, -, hmarks⟩ := steps_of_report h
    rw [hmarks]
    exact fun x hx => (hsteps.mark_new x hx).1
  simp only [Report.stepsOf, Report.entriesFor, List.mem_map, List.mem_filter, beq_iff_eq,
    List.mem_filterMap]
  constructor
  · rintro ⟨e, ⟨⟨he, rfl⟩, hkind⟩, rfl⟩
    have hk : e.mark? =
        some ⟨e.snapshot.employee, e.snapshot.month, .level e.snapshot.severity⟩ := by
      rw [PlanEntry.mark?, PlanEntry.marker?, hkind]
      rfl
    have := hmonth _ (List.mem_filterMap.mpr ⟨e, he, hk⟩)
    exact ⟨e, he, by rw [hk, ← this]⟩
  · rintro ⟨e, he, hk⟩
    rw [PlanEntry.mark?, PlanEntry.marker?] at hk
    cases hkind : e.kind with
    | ordinary =>
      rw [hkind] at hk
      obtain ⟨hemployee, -, hlevel⟩ := Mark.mk.inj (Option.some.inj hk)
      exact ⟨e, ⟨⟨he, hemployee⟩, hkind⟩, Marker.level.inj hlevel⟩
    | selfEscalation =>
      rw [hkind] at hk
      cases (Mark.mk.inj (Option.some.inj hk)).2.2
    | forced =>
      rw [hkind] at hk
      cases hk

/-- The severity of an employee is that of an accepted record under its department's ceiling. -/
theorem exists_accepted (hm : q.decision.mode = .threshold) (h : q.on b l = (.ok rep, l'))
    {s : Severity} (hs : rep.severityOf? employee = some s) :
    ∃ r ∈ q.accepted, r.employee = employee ∧ ∃ ceiling e,
      q.config.ceilingFor r.department = some ceiling ∧ evaluate r.minutes ceiling = .ok e ∧
        e.severity = s := by
  obtain ⟨work, hev, hsnap, -⟩ := run_threshold hm h
  obtain ⟨f, hf, rfl⟩ := Option.map_eq_some_iff.mp hs
  have hmem := List.mem_of_find?_eq_some hf
  rw [hsnap] at hmem
  obtain ⟨w, hw, rfl⟩ := List.mem_map.mp hmem
  have hemployee : w.2.employee = employee := by simpa using List.find?_some hf
  obtain ⟨ceiling, hc, hof⟩ := hev.snapshot w hw
  have haccepted : w.1 ∈ q.accepted := by
    rw [RunRequest.accepted, ← hev.records]
    exact List.mem_map_of_mem hw
  refine ⟨w.1, haccepted, (hev.workOf.subject w hw).1 ▸ hemployee, ceiling, ?_⟩
  obtain ⟨e, he, hw⟩ := Snapshot.ofRecord_eq_ok hof
  exact ⟨e, hc, he, by rw [hw]⟩

/-! ## Backends that keep a set of marks -/

variable {holds : σ → Finset Mark → Prop} {month : Month} {marks : Finset Mark}
  {es : List PlanEntry} {asked : Prop}

theorem mem_standing_of_holds (hb : b.Keeps holds) (hm : month.IsCommon) (hs : holds l.store marks)
    (hc : l.cached? month = none) {p : String × Marker} :
    p ∈ l.standing b month ↔ ⟨p.1, month, p.2⟩ ∈ marks := by
  obtain ⟨es, s', hl, hes, -⟩ := hb.load hs hm
  have hstanding : l.standing b month = Ledger.marksOf month es := by
    simp only [Ledger.standing, hc, hl]
  rw [hstanding, Ledger.mem_marksOf, hes.mem]
  exact and_iff_left rfl

theorem holds_loaded (hb : b.Keeps holds) (hm : month.IsCommon) (hs : holds l.store marks) :
    holds (l.loaded b month).store marks := by
  rw [Ledger.store_loaded]
  split
  · exact hs
  · obtain ⟨es, s', hl, -, hs'⟩ := hb.load hs hm
    rwa [hl]

/-- The steps of a run add the marks of its entries to those that are held. -/
theorem Steps.held (hb : b.Keeps holds) (hm : month.IsCommon)
    (h : Steps b month l l' es asked) (hs : holds l.store marks) :
    holds l'.store (marks ∪ (es.filterMap PlanEntry.mark?).toFinset) := by
  induction h generalizing marks with
  | idle => simpa using hs
  | looked => simpa using holds_loaded hb hm hs
  | @sent l asked r k e _ hr hk he hn hnew =>
    subst hr
    obtain ⟨hstore, -⟩ := marked_of_new (b := b) he hnew
    obtain ⟨s', hu, hs'⟩ :=
      hb.upsert (e := ⟨r.employee, r.month, k⟩) (holds_loaded hb hm hs) ⟨hm, hn⟩
    rw [hstore, hu]
    have hmarks : [(marked b r k e (l.loaded b r.month)).1.1].filterMap PlanEntry.mark? =
        [⟨r.employee, r.month, k⟩] := by
      rw [List.filterMap_cons, mark?_marked, hk]
      rfl
    rw [hmarks, Finset.union_comm]
    simpa using hs'
  | trans _ _ ih ih₁ =>
    have := ih₁ (ih hs)
    rwa [Finset.union_assoc, ← List.toFinset_append, ← List.filterMap_append] at this

/-- What is held of the steps of an employee is what was reported of them. -/
def Reported (holds : σ → Finset Mark → Prop) (employee : String) (month : Month)
    (past : List Severity) (store : σ) : Prop :=
  ∃ marks, holds store marks ∧ ∀ s : Severity, ⟨employee, month, .level s⟩ ∈ marks ↔ s ∈ past

/-- A run with a new ledger reports the step that an employee has reached, if it was not reported
before, and what is held is what was reported, afterwards as well. -/
theorem Reported.on (hb : b.Keeps holds) (hm : q.now.toMonth.IsCommon)
    (hmode : q.decision.mode = .threshold)
    (hs : Reported holds employee q.now.toMonth past l.store)
    (hnew : l.cached? q.now.toMonth = none) (h : q.on b l = (.ok rep, l')) :
    rep.stepsOf employee = climb past (rep.severityOf? employee).toList ∧
      Reported holds employee q.now.toMonth (past ++ rep.stepsOf employee) l'.store := by
  obtain ⟨marks, hs, hpast⟩ := hs
  have hsent : ∀ s : Severity,
      (employee, .level s) ∈ l.standing b q.now.toMonth ↔ s ∈ past := fun s =>
    (mem_standing_of_holds hb hm hs hnew).trans (hpast s)
  refine ⟨stepsOf_eq hmode h fun s _ => hsent s,
    marks ∪ (rep.entries.filterMap PlanEntry.mark?).toFinset, ?_, fun s => ?_⟩
  · obtain ⟨es, asked, l₁, hsteps, rfl, hmarks⟩ := steps_of_report h
    rw [hmarks]
    have hheld : holds l₁.store (marks ∪ (es.filterMap PlanEntry.mark?).toFinset) :=
      hsteps.held hb hm hs
    exact hheld
  · rw [Finset.mem_union, List.mem_toFinset, List.mem_append, hpast, mem_stepsOf h]

end Planner

/-! ## Runs one after the other -/

section

variable {σ : Type} {b : Backend σ} {use : LedgerUse} {qs : List RunRequest} {l : Ledger σ}
  {employee : String}

/-- The reports of the runs that gave one, in order. -/
def reportsOf (ran : List (Ran σ)) : List Report := ran.filterMap fun r => r.answer.toOption

theorem request_runAll (b : Backend σ) (use : LedgerUse) (qs : List RunRequest) (l : Ledger σ) :
    (runAll b use qs l).1.map (·.request) = qs := by
  induction qs generalizing l with
  | nil => rfl
  | cons q qs ih => rw [runAll, List.map_cons, ih]

theorem request_mem_of_mem_runAll {r : Ran σ} (h : r ∈ (runAll b use qs l).1) :
    r.request ∈ qs := by
  rw [← request_runAll b use qs l]
  exact List.mem_map_of_mem h

/-- A severity that one of the runs reports comes from a record that it accepted. -/
theorem exists_accepted_of_mem_runAll {r : Ran σ} (hr : r ∈ (runAll b use qs l).1)
    (hm : r.request.decision.mode = .threshold) {s : Severity}
    (hs : r.answer.toOption.bind (·.severityOf? employee) = some s) :
    ∃ a ∈ r.request.accepted, a.employee = employee ∧ ∃ ceiling e,
      r.request.config.ceilingFor a.department = some ceiling ∧
        evaluate a.minutes ceiling = .ok e ∧ e.severity = s := by
  obtain ⟨rep, hrep, hs⟩ := Option.bind_eq_some_iff.mp hs
  have hon := on_of_mem_runAll hr
  cases hanswer : r.answer with
  | error f =>
    rw [hanswer] at hrep
    exact nomatch hrep
  | ok rep' =>
    rw [hanswer] at hrep hon
    obtain rfl : rep' = rep := Option.some.inj hrep
    exact Planner.exists_accepted hm hon hs

/-- Where the minutes of an employee never go down, neither do the severities. -/
theorem severities_rise {c : Config}
    (hq : ∀ q ∈ qs, q.config = c ∧ q.decision.mode = .threshold)
    (hrise : qs.Pairwise (RunRequest.Rises employee)) :
    ((reportsOf (runAll b use qs l).1).filterMap (·.severityOf? employee)).Pairwise (· ≤ ·) := by
  rw [reportsOf, List.filterMap_filterMap, List.pairwise_filterMap]
  rw [← request_runAll b use qs l, List.pairwise_map] at hrise
  refine hrise.imp_of_mem fun {r r'} hr hr' hrises s hs s' hs' => ?_
  obtain ⟨hconfig, hm⟩ := hq _ (request_mem_of_mem_runAll hr)
  obtain ⟨hconfig', hm'⟩ := hq _ (request_mem_of_mem_runAll hr')
  obtain ⟨a, ha, hemployee, ceiling, e, hc, he, rfl⟩ := exists_accepted_of_mem_runAll hr hm hs
  obtain ⟨a', ha', hemployee', ceiling', e', hc', he', rfl⟩ :=
    exists_accepted_of_mem_runAll hr' hm' hs'
  obtain ⟨hdepartment, hminutes⟩ := hrises a ha a' ha' hemployee hemployee'
  -- of one department there is one ceiling
  rw [hconfig', hdepartment, ← hconfig, hc, Option.some.injEq] at hc'
  subst hc'
  exact evaluate_mono he he' hminutes (UInt32.le_refl _)

/-- What the runs report of the steps of an employee, over a backend that keeps a set of marks. -/
theorem reports_climb {holds : σ → Finset Mark → Prop} {month : Month} (hb : b.Keeps holds)
    (hm : month.IsCommon)
    (hq : ∀ q ∈ qs, q.now.toMonth = month ∧ q.decision.mode = .threshold)
    (hok : ∀ r ∈ (runAll b .renewed qs l).1, r.answer.isOk = true) {past : List Severity}
    (hs : Planner.Reported holds employee month past l.store) {before after : List Report}
    (hreports : reportsOf (runAll b .renewed qs l).1 = before ++ after) :
    before.flatMap (·.stepsOf employee) =
      climb past (before.filterMap (·.severityOf? employee)) := by
  induction qs generalizing l past before with
  | nil =>
    rw [(List.append_eq_nil_iff.mp hreports.symm).1]
    rfl
  | cons q qs ih =>
    obtain ⟨⟨rfl, hmode⟩, hqs⟩ := List.forall_mem_cons.mp hq
    rw [runAll] at hok hreports
    obtain ⟨hanswer, hok⟩ := List.forall_mem_cons.mp hok
    cases hon : q.on b (LedgerUse.renewed.next l) with
    | mk answer l' =>
      rw [hon] at hok hanswer hreports
      cases answer with
      | error f => cases hanswer
      | ok rep =>
        cases before with
        | nil => rfl
        | cons rep' before =>
          obtain ⟨rfl, htail⟩ := List.cons_eq_cons.mp hreports
          have hs : Planner.Reported holds employee q.now.toMonth past
              (LedgerUse.renewed.next l).store := hs
          obtain ⟨hsteps, hs'⟩ := hs.on hb hm hmode rfl hon
          have hseen : (rep :: before).filterMap (·.severityOf? employee) =
              (rep.severityOf? employee).toList ++ before.filterMap (·.severityOf? employee) := by
            rw [List.filterMap_cons]
            cases rep.severityOf? employee <;> rfl
          rw [List.flatMap_cons, ih hqs hok hs' htail, hseen, climb_append, ← hsteps]

end

namespace World

variable {w : World} {tables : Tables} {c : Config} {month : Month} {employee : String}
  {qs : List RunRequest}

/-- **The steps only climb.** Runs of one month over a database without marks, each with a new
ledger and with the same settings, all give reports, and an employee stays in a department and never
loses minutes. Then the steps reported of them go up, so there are five at most, and after each run
that finds them on a step, that is the last one reported. -/
theorem steps_ascend (hw : Serving (.ready tables) w) (hno : tables.marks = [])
    (hm : month.IsCommon)
    (hq : ∀ q ∈ qs, q.config = c ∧ q.now.toMonth = month ∧ q.decision.mode = .threshold)
    (hrise : qs.Pairwise (RunRequest.Rises employee))
    (hok : ∀ r ∈ (runAll backend .renewed qs (.fresh w)).1, r.answer.isOk = true) :
    let reports := reportsOf (runAll backend .renewed qs (.fresh w)).1
    let steps := fun reports : List Report => reports.flatMap (·.stepsOf employee)
    (steps reports).Pairwise (· < ·) ∧ (steps reports).length ≤ 5 ∧
      ∀ before rep after s, reports = before ++ rep :: after →
        rep.severityOf? employee = some s → s.isNotifiable = true →
          (steps (before ++ [rep])).getLast? = some s := by
  intro reports steps
  have hseverities : (reports.filterMap (·.severityOf? employee)).Pairwise (· ≤ ·) :=
    severities_rise (fun q hmem => ⟨(hq q hmem).1, (hq q hmem).2.2⟩) hrise
  have hsteps : ∀ {before after}, reports = before ++ after →
      steps before = climb [] (before.filterMap (·.severityOf? employee)) :=
    reports_climb keeps_backend hm (fun q hmem => (hq q hmem).2) hok
      ⟨∅, ⟨tables, hw, Tables.holds_empty hno⟩, by simp⟩
  have hall := hsteps (List.append_nil reports).symm
  have hclimbs : (climb [] (reports.filterMap (·.severityOf? employee))).Pairwise (· < ·) :=
    climb_ascends hseverities
  refine ⟨hall ▸ hclimbs, hall ▸ length_climb_le hclimbs,
    fun before rep after s hsplit hs hn => ?_⟩
  rw [List.append_cons] at hsplit
  rw [hsplit, List.filterMap_append] at hseverities
  have hto := (List.pairwise_append.mp hseverities).1
  rw [hsteps hsplit]
  have hlast : [rep].filterMap (·.severityOf? employee) = [s] := List.filterMap_cons_some hs
  rw [List.filterMap_append, hlast] at hto ⊢
  exact getLast?_climb hto hn

/-- Four runs, in which one employee gains minutes and another has none. -/
private def rising : List RunRequest := [300, 360, 360, 540].map fun minutes =>
  let trial := RunRequest.trial 600 minutes .threshold
  { trial with
    rows := { employee := "2002", name := "Bob", department := "300", identity := none
              minutes := some 0, previousMinutes := none } :: trial.rows }

theorem steps_ascend_sample : ∃ w w', connect? ⟨[]⟩ "overtime.db" = .ok w ∧
    call migrate w = (.ok (), w') ∧
      let reports := reportsOf (runAll backend .renewed rising (.fresh w')).1
      reports.map (·.stepsOf "1001") = [[], [.p60], [], [.p90]] ∧
        (reports.flatMap (·.stepsOf "1001")).Pairwise (· < ·) := by
  obtain ⟨w, w', hw, hw', hserving⟩ := exists_new
  have hran : (connect? ⟨[]⟩ "overtime.db").toOption.map (fun w =>
      let ran := (runAll backend .renewed rising (.fresh (call migrate w).2)).1
      (ran.all (·.answer.isOk), (reportsOf ran).map (·.stepsOf "1001"))) =
        some (true, [[], [.p60], [], [.p90]]) := by decide +kernel
  rw [hw, Except.toOption, Option.map_some, hw', Option.some.injEq, Prod.mk.injEq] at hran
  obtain ⟨hok, hsteps⟩ := hran
  have hq : ∀ q ∈ rising, q.config = (RunRequest.trial 600 0 .threshold).config ∧
      q.now.toMonth = Moment.trial.toMonth ∧ q.decision.mode = .threshold := by decide +kernel
  have hrise : rising.Pairwise (RunRequest.Rises "1001") := by decide +kernel
  obtain ⟨hascend, -⟩ := steps_ascend hserving rfl (by decide) hq hrise (List.all_eq_true.mp hok)
  exact ⟨w, w', hw, hw', hsteps, hascend⟩

end World

end OvertimeNotice
