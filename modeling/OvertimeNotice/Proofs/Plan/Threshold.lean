import Mathlib.Data.List.Basic
import OvertimeNotice.Proofs.Plan.Intake
import OvertimeNotice.Proofs.Plan.Outcome

/-!
# A run on steps newly reached

The plan of such a run in closed form: every entry and every suppression follows from the marks of
the month at the start of the run, although the ledger changes from one employee to the next.

* `decideAll_threshold`: the decisions on one record after the other, by way of the first ledger.
* `Planner.run_threshold`: the report and the ledger after a run.
-/

namespace OvertimeNotice

namespace Planner

variable {σ : Type} {b : Backend σ} {c : Config} {month : Month}

/-- The marks of the entries on one employee are not those of another. -/
theorem standing_of_ne {l l' : Ledger σ} {s : Snapshot} {es : List PlanEntry} {asked : Prop}
    (h : Steps b month l l' es asked) (hs : ∀ e ∈ es, e.snapshot = s) {employee : String}
    (hne : employee ≠ s.employee) (k : Marker) :
    (employee, k) ∈ l'.standing b month ↔ (employee, k) ∈ l.standing b month := by
  refine (h.standing _).trans (or_iff_left ?_)
  rw [List.mem_filterMap]
  rintro ⟨e, he, hk⟩
  rw [PlanEntry.mark?, Option.map_eq_some_iff] at hk
  obtain ⟨_, -, hk⟩ := hk
  rw [hs e he] at hk
  exact hne (congrArg Mark.employee hk).symm

theorem decideAll_threshold {work : List (OvertimeRecord × Snapshot)} {l : Ledger σ}
    (hw : WorkOf month work) :
    let d := decideAll b c .threshold work l
    let sent := l.standing b month
    d.1.map (·.snapshot) = work.map (·.2) ∧
      (d.1.flatMap (·.entries)).map PlanEntry.planned = work.flatMap (fun w =>
        stepEntries c sent w.1 w.2 ++ noticeEntries c sent w.1 w.2) ∧
      d.1.flatMap (·.suppressed) = work.flatMap (fun w => stepSuppressed sent w.2) ∧
      Steps b month l d.2 (d.1.flatMap (·.entries)) (∃ w ∈ work, Consults c w.1 w.2) := by
  induction work generalizing l with
  | nil => exact ⟨rfl, rfl, rfl, .idle (by simp)⟩
  | cons w ws ih =>
    obtain ⟨r, s⟩ := w
    obtain rfl : r.month = month := hw.month _ (List.mem_cons_self ..)
    obtain ⟨hs, hm⟩ := hw.subject _ (List.mem_cons_self ..)
    obtain ⟨hsnap, hentries, hsupp, hsteps⟩ :=
      outcome_threshold (b := b) (c := c) (l := l) hs hm
    obtain ⟨hsnap', hentries', hsupp', hsteps'⟩ :=
      ih (l := (outcome b c .threshold r s l).2) hw.tail
    have hes : ∀ e ∈ (outcome b c .threshold r s l).1.entries, e.snapshot = s := by
      intro e he
      have hp : e.planned ∈ stepEntries c (l.standing b r.month) r s ++
          noticeEntries c (l.standing b r.month) r s := by
        rw [← hentries]
        exact List.mem_map_of_mem he
      rcases List.mem_append.mp hp with hp | hp
      · exact (mem_stepEntries hp).2
      · exact (mem_noticeEntries hp).2
    -- what was decided about this employee says nothing about the others
    have hothers : ∀ w ∈ ws, ∀ k, (w.2.employee, k) ∈ (outcome b c .threshold r s l).2.standing b
        r.month ↔ (w.2.employee, k) ∈ l.standing b r.month := by
      intro w hmem
      refine standing_of_ne hsteps hes fun heq => ?_
      have hin : w.2.employee ∈ ws.map (·.2.employee) := List.mem_map_of_mem hmem
      rw [heq] at hin
      exact (List.nodup_cons.mp hw.nodup).1 hin
    refine ⟨?_, ?_, ?_, ?_⟩
    · simp only [decideAll, List.map_cons, hsnap, hsnap']
    · simp only [decideAll, List.flatMap_cons, List.map_append, hentries, hentries']
      refine congrArg _ (List.flatMap_congr fun w hmem => ?_)
      rw [stepEntries_congr (hothers w hmem), noticeEntries_congr (hothers w hmem _)]
    · simp only [decideAll, List.flatMap_cons, hsupp, hsupp']
      refine congrArg _ (List.flatMap_congr fun w hmem => ?_)
      rw [stepSuppressed_congr (hothers w hmem)]
    · have h := hsteps.trans hsteps'
      simpa [decideAll] using h

/-- **A run on steps newly reached.** The entries are those due by the marks at the start, on one
accepted record after the other and the ordinary one first; an employee without an ordinary entry is
suppressed once. The ledger then keeps the marks at the start and those of the entries, unless
nobody gave it cause to look. -/
theorem run_threshold {runId : String} {now : Moment} {decision : RunDecision}
    {rows : List RawRow} {l l' : Ledger σ} {rep : Report} (hm : decision.mode = .threshold)
    (hr : run b c runId now decision rows l = (.ok rep, l')) :
    let sent := l.standing b now.toMonth
    ∃ work, Evaluated c (intake now.toMonth rows).records work ∧
      rep.evaluated = work.map (·.2) ∧
      rep.entries.map PlanEntry.planned = work.flatMap (fun w =>
        stepEntries c sent w.1 w.2 ++ noticeEntries c sent w.1 w.2) ∧
      rep.suppressed = work.flatMap (fun w => stepSuppressed sent w.2) ∧
      ((∃ w ∈ work, Consults c w.1 w.2) →
        ∃ ms, l'.cached? now.toMonth = some ms ∧ ∀ p : String × Marker, p ∈ ms ↔
          p ∈ sent ∨ ∃ e ∈ rep.entries, e.mark? = some ⟨p.1, now.toMonth, p.2⟩) ∧
      ((∀ w ∈ work, ¬Consults c w.1 w.2) → l' = l.drain.2) := by
  obtain ⟨work, hev, rfl, rfl⟩ := run_eq_ok hr
  obtain ⟨hsnap, hentries, hsupp, hsteps⟩ :=
    decideAll_threshold (b := b) (c := c) (l := l) hev.workOf
  simp only [hm]
  refine ⟨work, hev, hsnap, hentries, hsupp, fun h => ?_, fun h => ?_⟩
  · obtain ⟨ms, hms⟩ := Option.isSome_iff_exists.mp (hsteps.cached h)
    refine ⟨ms, hms, fun p => ?_⟩
    rw [← Ledger.standing_of_cached (b := b) hms, hsteps.standing, List.mem_filterMap]
    rfl
  · rw [hsteps.untouched fun ⟨w, hmem, hw⟩ => h w hmem hw]

private def trialConfig : Config :=
  { Config.sample with defaultCeiling := some 600, ceilings := TextMap.empty }

/-- One employee at the ceiling, who was told so before, and one far below it. -/
private def trialRows : List RawRow :=
  [{ employee := "1001", name := "Ann", department := "300", identity := some "ann@example.com"
     minutes := some 600, previousMinutes := none },
    { employee := "1002", name := "Ben", department := "300", identity := none
      minutes := some 60, previousMinutes := none }]

private def trialMarks : MemoryMarks :=
  { marks := [⟨"1001", Moment.trial.toMonth, .level .p100⟩]
    failRead := false, failWrite := true, failPurge := false }

/-- The step was sent already, direct notice was not; its mark is kept although it cannot be
written. -/
theorem run_threshold_memory :
    ∃ rep l', run Backend.memory trialConfig "trial" Moment.trial .threshold trialRows
        (Ledger.fresh trialMarks) = (.ok rep, l') ∧
      RunDecision.threshold.mode = .threshold ∧
      rep.entries.map (·.kind) = [.selfEscalation] ∧
      rep.suppressed.map (·.reason) = [.alreadyNotified .p100, .belowThreshold] ∧
      ∃ ms, l'.cached? Moment.trial.toMonth = some ms ∧
        ∀ k, ("1001", k) ∈ ms ↔ k = .level .p100 ∨ k = .selfEscalation := by
  have hrun : (run Backend.memory trialConfig "trial" Moment.trial .threshold trialRows
      (Ledger.fresh trialMarks)).1.map (fun rep =>
        (rep.entries.map (·.mark?), rep.entries.map (·.kind), rep.suppressed.map (·.reason),
          rep.evaluated.map (·.severity.isNotifiable))) =
      .ok ([some ⟨"1001", Moment.trial.toMonth, .selfEscalation⟩], [.selfEscalation],
        [.alreadyNotified .p100, .belowThreshold], [true, false]) := by
    decide +kernel
  cases h : run Backend.memory trialConfig "trial" Moment.trial .threshold trialRows
      (Ledger.fresh trialMarks) with
  | mk r l' =>
    cases r with
    | error f => rw [h] at hrun; exact nomatch hrun
    | ok rep =>
      rw [h] at hrun
      obtain ⟨hmarks, hkinds, hreasons, hseverities⟩ := by
        simpa only [Except.map, Except.ok.injEq, Prod.mk.injEq] using hrun
      obtain ⟨work, -, hev, -, -, hcached, -⟩ := run_threshold rfl h
      have hasked : ∃ w ∈ work, Consults trialConfig w.1 w.2 := by
        rw [hev, List.map_map] at hseverities
        obtain ⟨w, hw, hn⟩ := List.mem_map.mp (hseverities ▸ List.mem_cons_self : true ∈ _)
        exact ⟨w, hw, .inl hn⟩
      obtain ⟨ms, hms, hmem⟩ := hcached hasked
      refine ⟨rep, l', rfl, rfl, hkinds, hreasons, ms, hms, fun k => (hmem _).trans ?_⟩
      have hsent : (Ledger.fresh trialMarks).standing Backend.memory Moment.trial.toMonth =
          [("1001", .level .p100)] := by decide
      have hentries : (∃ e ∈ rep.entries, e.mark? = some ⟨"1001", Moment.trial.toMonth, k⟩) ↔
          some ⟨"1001", Moment.trial.toMonth, k⟩ ∈ rep.entries.map (·.mark?) :=
        List.mem_map.symm
      rw [hsent, hentries, hmarks]
      simp

end Planner

end OvertimeNotice
