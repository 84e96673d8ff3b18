import OvertimeNotice.Proofs.Plan.Apart
import OvertimeNotice.Proofs.Plan.Percent
import OvertimeNotice.Proofs.Plan.Reread
import OvertimeNotice.Proofs.Plan.Threshold
import OvertimeNotice.Proofs.Plan.Unlisted

/-!
# Reports of runs read back

Whatever a run reports has a text that reads back: its figures are those of evaluated records, and
the months in it are that of the run, unless the ledger had a warning about another one to hand out.

* `Date.isPlain_toMonth`: which dates have a month whose text reads back.
* `Steps.warnings`: the warnings that a run may raise in its ledger.
* `fits_of_report`, `figures_of_report`: entries and suppressions have the figures of evaluated
  records.
* `run_reread`: what comes back of a report.
-/

namespace OvertimeNotice

/-- The years of dates have 31 bits, so it is a matter of the sign whether a month reads back. -/
theorem Date.isPlain_toMonth (d : Date) : d.toMonth.IsPlain ↔ 0 ≤ d.year :=
  ⟨fun h => h.1, fun h => ⟨h, d.year_range.2.trans (by decide)⟩⟩

namespace Planner

variable {σ : Type} {b : Backend σ} {c : Config} {month : Month}

/-! ## Warnings -/

theorem warnings_loaded {l : Ledger σ} {w : Warning} (h : w ∈ (l.loaded b month).warnings) :
    w ∈ l.warnings ∨ ∃ reason, w = .stateReadFailed month reason := by
  unfold Ledger.loaded at h
  split at h
  · exact .inl h
  · split at h
    · exact .inl h
    · rcases List.mem_append.mp h with h | h
      · exact .inl h
      · exact .inr ⟨_, List.mem_singleton.mp h⟩

theorem warnings_marked {r : OvertimeRecord} {k : Marker} {e : PlanEntry} {l : Ledger σ} :
    (marked b r k e l).2.warnings = (l.loaded b r.month).warnings := by
  rw [marked_ledger, Ledger.markNotified]
  split <;> rfl

/-- The only warning that a run raises in its ledger is about reading its own month. -/
theorem Steps.warnings {l l' : Ledger σ} {es : List PlanEntry} {asked : Prop}
    (h : Steps b month l l' es asked) {w : Warning} (hw : w ∈ l'.warnings) :
    w ∈ l.warnings ∨ ∃ reason, w = .stateReadFailed month reason := by
  induction h with
  | idle => exact .inl hw
  | looked => exact warnings_loaded hw
  | sent _ hr =>
    subst hr
    rw [warnings_marked] at hw
    exact (warnings_loaded hw).elim warnings_loaded .inr
  | trans _ _ ih ih₁ => exact (ih₁ hw).elim ih .inr

/-- The warnings that go with entries are not about months. -/
theorem Warned.isPlain {es : List PlanEntry} {failures : List (List Warning)} {ws : List Warning}
    (h : Warned es failures ws) : ∀ w ∈ ws, w.IsPlain := by
  induction h with
  | nil => exact nofun
  | @cons e fs es failures ws _ hf _ ih =>
    intro w hw
    rw [List.mem_append, List.mem_append] at hw
    rcases hw with (hw | hw) | hw
    · unfold gapWarnings at hw
      split at hw
      · rw [List.mem_singleton.mp hw]
        trivial
      · exact nomatch hw
    · obtain ⟨k, reason, rfl⟩ := hf w hw
      trivial
    · exact ih w hw

theorem warnings_intake (month : Month) (rows : List RawRow) :
    ∀ w ∈ (intake month rows).warnings, w.IsPlain := by
  have hadd : ∀ (i : Intake) (row : RawRow), (∀ w ∈ i.warnings, w.IsPlain) →
      ∀ w ∈ (i.add month row).warnings, w.IsPlain := by
    intro i row h
    have hskipped : ∀ employee reason, ∀ w ∈ i.warnings ++ [Warning.recordSkipped employee reason],
        w.IsPlain := by
      intro employee reason w hw
      rcases List.mem_append.mp hw with hw | hw
      · exact h w hw
      · rw [List.mem_singleton.mp hw]
        trivial
    unfold Intake.add
    split
    · exact hskipped _ _
    · split
      · exact hskipped _ _
      · exact h
  suffices h : ∀ i : Intake, (∀ w ∈ i.warnings, w.IsPlain) →
      ∀ w ∈ (rows.foldl (Intake.add month) i).warnings, w.IsPlain from h ⟨[], []⟩ nofun
  induction rows with
  | nil => exact fun i hi => hi
  | cons row rows ih => exact fun i hi => ih _ (hadd i row hi)

/-! ## Figures -/

theorem fits_of_ofRecord {r : OvertimeRecord} {ceiling : UInt32} {s : Snapshot}
    (h : Snapshot.ofRecord r ceiling = .ok s) : s.Fits := by
  have hminutes := r.minutes.toNat_lt
  have hceiling := ceiling.toNat_lt
  have hremaining : s.remaining = (ceiling.toNat : Int) - r.minutes.toNat := by
    obtain ⟨e, -, rfl⟩ := Snapshot.ofRecord_eq_ok h
    rfl
  exact ⟨by omega, by omega⟩

/-- What is decided has the figures of the records decided on. -/
theorem figures_decideAll (mode : RunMode) {work : List (OvertimeRecord × Snapshot)} {l : Ledger σ}
    (hw : WorkOf month work) :
    let os := (decideAll b c mode work l).1
    os.map (·.snapshot) = work.map (·.2) ∧
      (∀ e ∈ os.flatMap (·.entries), e.snapshot ∈ work.map (·.2)) ∧
      (∀ x ∈ os.flatMap (·.suppressed), ∃ s ∈ work.map (·.2), x.percent = s.percent) := by
  cases mode with
  | forced =>
    simp only [decideAll_forced_eq, List.map_map, List.flatMap_map]
    refine ⟨rfl, fun e he => ?_, fun x hx => ?_⟩
    · obtain ⟨w, hw, he⟩ := List.mem_flatMap.mp he
      rw [List.mem_singleton.mp he]
      exact List.mem_map_of_mem hw
    · obtain ⟨w, -, hx⟩ := List.mem_flatMap.mp hx
      exact nomatch hx
  | threshold =>
    obtain ⟨hsnap, hentries, hsupp, -⟩ := decideAll_threshold (b := b) (c := c) (l := l) hw
    refine ⟨hsnap, fun e he => ?_, fun x hx => ?_⟩
    · have hplanned := List.mem_map_of_mem (f := PlanEntry.planned) he
      rw [hentries] at hplanned
      obtain ⟨w, hw, hp⟩ := List.mem_flatMap.mp hplanned
      have hsnapshot : e.snapshot = w.2 := by
        rcases List.mem_append.mp hp with hp | hp
        · exact (mem_stepEntries hp).2
        · exact (mem_noticeEntries hp).2
      rw [hsnapshot]
      exact List.mem_map_of_mem hw
    · rw [hsupp] at hx
      obtain ⟨w, hw, hx⟩ := List.mem_flatMap.mp hx
      refine ⟨w.2, List.mem_map_of_mem hw, ?_⟩
      unfold stepSuppressed at hx
      split at hx
      · exact nomatch hx
      · rw [List.mem_singleton.mp hx]

theorem isPlain_toMonth {now : Moment} (h : 0 ≤ now.date.year) : now.toMonth.IsPlain :=
  now.date.isPlain_toMonth.mpr h

theorem warnings_decideAll {mode : RunMode} {work : List (OvertimeRecord × Snapshot)}
    {l : Ledger σ} (hw : WorkOf month work) {w : Warning}
    (h : w ∈ (decideAll b c mode work l).2.warnings) :
    w ∈ l.warnings ∨ ∃ reason, w = .stateReadFailed month reason := by
  cases mode with
  | forced =>
    rw [(decideAll_forced work l).1] at h
    exact .inl h
  | threshold =>
    obtain ⟨-, -, -, hsteps⟩ := decideAll_threshold (b := b) (c := c) (l := l) hw
    exact hsteps.warnings h

section

variable {runId : String} {now : Moment} {decision : RunDecision} {rows : List RawRow}
  {l l' : Ledger σ} {rep : Report}

theorem month_of_report (h : run b c runId now decision rows l = (.ok rep, l')) :
    rep.month = now.toMonth := by
  obtain ⟨work, -, rfl, -⟩ := run_eq_ok h
  rfl

/-- The figures of a report are those of its month, and have texts. -/
theorem fits_of_report (h : run b c runId now decision rows l = (.ok rep, l')) :
    (∀ s ∈ rep.figures, s.month = now.toMonth ∧ s.Fits) ∧ ∀ p ∈ rep.percents, p.Moderate := by
  obtain ⟨work, hev, rfl, rfl⟩ := run_eq_ok h
  obtain ⟨hsnap, hentries, hsupp⟩ :=
    figures_decideAll (b := b) (c := c) decision.mode (l := l) hev.workOf
  have hwork : ∀ s ∈ work.map (·.2),
      (s.month = now.toMonth ∧ s.Fits) ∧ s.percent.Moderate := by
    intro s hs
    obtain ⟨w, hw, rfl⟩ := List.mem_map.mp hs
    obtain ⟨ceiling, -, hrecord⟩ := hev.snapshot w hw
    have hmonth := (hev.workOf.subject w hw).2.trans (hev.workOf.month w hw)
    exact ⟨⟨hmonth, fits_of_ofRecord hrecord⟩, Snapshot.moderate_percent hrecord⟩
  have hfigures : ∀ s ∈ (report runId now.toMonth decision
      (decideAll b c decision.mode work l).2.drain.1 (intake now.toMonth rows).warnings
      (decideAll b c decision.mode work l).1).figures,
      (s.month = now.toMonth ∧ s.Fits) ∧ s.percent.Moderate := by
    refine List.forall_mem_append.mpr ⟨List.forall_mem_map.mpr fun e he => ?_, fun s hs => ?_⟩
    · exact hwork _ (hentries e he)
    · exact hwork s (hsnap ▸ hs)
  refine ⟨fun s hs => (hfigures s hs).1, List.forall_mem_append.mpr ⟨?_, ?_⟩⟩
  · exact List.forall_mem_map.mpr fun s hs => (hfigures s hs).2
  · refine List.forall_mem_map.mpr fun x hx => ?_
    obtain ⟨s, hs, hp⟩ := hsupp x hx
    exact hp ▸ (hwork s hs).2

theorem figures_of_report (hy : 0 ≤ now.date.year)
    (h : run b c runId now decision rows l = (.ok rep, l')) :
    (∀ s ∈ rep.figures, s.IsPlain) ∧ ∀ p ∈ rep.percents, p.Moderate := by
  obtain ⟨hfits, hmoderate⟩ := fits_of_report h
  refine ⟨fun s hs => ?_, hmoderate⟩
  obtain ⟨hmonth, hlow, hhigh⟩ := hfits s hs
  exact ⟨hmonth ▸ isPlain_toMonth hy, hlow, hhigh⟩

/-- What a report of a year that is not negative warns of reads back, unless it is a warning that
the ledger had to hand out. -/
theorem isPlain_or_pending (hy : 0 ≤ now.date.year)
    (h : run b c runId now decision rows l = (.ok rep, l')) :
    ∀ w ∈ rep.warnings, w.IsPlain ∨ w ∈ l.warnings := by
  obtain ⟨work, hev, rfl, rfl⟩ := run_eq_ok h
  obtain ⟨failures, hwarned⟩ :=
    warned_decideAll (b := b) (c := c) decision.mode hev.workOf.subject l
  intro w hw
  replace hw : w ∈ (decideAll b c decision.mode work l).2.warnings ++
      (intake now.toMonth rows).warnings ++
        (decideAll b c decision.mode work l).1.flatMap (·.warnings) := hw
  rw [List.mem_append, List.mem_append] at hw
  rcases hw with (hw | hw) | hw
  · rcases warnings_decideAll hev.workOf hw with hw | ⟨reason, rfl⟩
    · exact .inr hw
    · exact .inl (isPlain_toMonth hy)
  · exact .inl (warnings_intake _ _ w hw)
  · exact .inl (hwarned.isPlain w hw)

/-- A report of a year that is not negative reads back, unless its ledger had a warning to hand out
that does not. -/
theorem isPlain_of_report (hy : 0 ≤ now.date.year) (hl : ∀ w ∈ l.warnings, w.IsPlain)
    (h : run b c runId now decision rows l = (.ok rep, l')) : rep.IsPlain := by
  exact ⟨month_of_report h ▸ isPlain_toMonth hy, (figures_of_report hy h).1, fun w hw =>
    (isPlain_or_pending hy h w hw).elim id (hl w)⟩

/-- **A report is read from its own text, but for the last places of percentages.** Each comes back
as what its shortest digits are read as: unchanged if they are brief, and off by one part in `2^50`
at most. -/
theorem run_reread (hy : 0 ≤ now.date.year) (hl : ∀ w ∈ l.warnings, w.IsPlain)
    (h : run b c runId now decision rows l = (.ok rep, l')) :
    (Json.parse? rep.toJson.compact).bind Report.ofJson? = some rep.reread ∧
      ∀ p ∈ rep.percents, (p.Brief → p.reread = p) ∧
        2 ^ 50 * |p.reread.units - p.units| ≤ p.units := by
  have hmoderate := (figures_of_report hy h).2
  refine ⟨Report.ofText?_compact (isPlain_of_report hy hl h) hmoderate, fun p hp => ?_⟩
  exact ⟨(hmoderate p hp).reread_eq, (hmoderate p hp).reread_near⟩

end

/-- Three quarters of a ceiling come back unchanged. -/
theorem run_reread_memory :
    ∃ rep l', (RunRequest.trial 600 450 .threshold).on Backend.memory (.fresh .empty) =
        (.ok rep, l') ∧ rep.entries.length = 1 ∧
      (Json.parse? rep.toJson.compact).bind Report.ofJson? = some rep := by
  have hrun : ((RunRequest.trial 600 450 .threshold).on Backend.memory (.fresh .empty)).1.map
      (fun rep => (rep.entries.length, decide (rep.reread = rep))) = .ok (1, true) := by
    decide +kernel
  cases h : (RunRequest.trial 600 450 .threshold).on Backend.memory (.fresh .empty) with
  | mk answer l' =>
    rw [h] at hrun
    cases answer with
    | error f => exact nomatch hrun
    | ok rep =>
      obtain ⟨hlength, hsame⟩ := Prod.mk.inj (Except.ok.inj hrun)
      obtain ⟨hread, -⟩ := run_reread (by decide) (List.forall_mem_nil _) h
      rw [of_decide_eq_true hsame] at hread
      exact ⟨rep, l', rfl, hlength, hread⟩

/-- A ledger that could not read a month before year zero, and was asked about it. -/
private def asked : Ledger MemoryMarks :=
  ((Ledger.fresh { MemoryMarks.empty with failRead := true }).hasNotified Backend.memory "1001"
    { Moment.trial.toMonth with year := -5 } (.level .p100)).2

/-- A run about nobody. -/
private def idle : RunRequest := { RunRequest.trial 600 0 .threshold with rows := [] }

/-- 541 of 600 minutes come back as another percentage. A warning about a month before year zero
does not come back at all. -/
theorem report_not_read_back :
    let lossy := RunRequest.trial 600 541 (.forced .forceAlways)
    (lossy.config.validate = .ok () ∧ 0 ≤ lossy.now.date.year ∧
      ∃ rep l', lossy.on Backend.memory (.fresh .empty) = (.ok rep, l') ∧
        (Json.parse? rep.toJson.compact).bind Report.ofJson? ≠ some rep) ∧
      idle.config.validate = .ok () ∧ 0 ≤ idle.now.date.year ∧
        ∃ rep l', idle.on Backend.memory asked = (.ok rep, l') ∧
          (Json.parse? rep.toJson.compact).bind Report.ofJson? = none := by
  intro lossy
  have hlossy : (lossy.on Backend.memory (.fresh .empty)).1.map (fun rep =>
      decide (rep.reread = rep)) = .ok false := by
    decide +kernel
  have hidle : (idle.on Backend.memory asked).1.map (fun rep =>
      (Report.ofJson? rep.reread.toJson).isNone) = .ok true := by
    decide +kernel
  refine ⟨⟨by decide +kernel, by decide, ?_⟩, by decide +kernel, by decide, ?_⟩
  · cases h : lossy.on Backend.memory (.fresh .empty) with
    | mk answer l' =>
      rw [h] at hlossy
      cases answer with
      | error f => exact nomatch hlossy
      | ok rep =>
        have hplain := isPlain_of_report (by decide) (List.forall_mem_nil _) h
        have hmoderate := (figures_of_report (by decide) h).2
        refine ⟨rep, l', rfl, ?_⟩
        rw [Report.ofText?_compact hplain hmoderate]
        exact fun heq => of_decide_eq_false (Except.ok.inj hlossy) (Option.some.inj heq)
  · cases h : idle.on Backend.memory asked with
    | mk answer l' =>
      rw [h] at hidle
      cases answer with
      | error f => exact nomatch hidle
      | ok rep =>
        obtain ⟨hplain, hmoderate⟩ := figures_of_report (by decide) h
        refine ⟨rep, l', rfl, ?_⟩
        rw [Report.parse?_compact hplain hmoderate, Option.bind_some]
        exact Option.isNone_iff_eq_none.mp (Except.ok.inj hidle)

end Planner

end OvertimeNotice
