import OvertimeNotice.History
import OvertimeNotice.Proofs.Plan.Rows

/-!
# What a run leaves in the history

Nobody who is evaluated goes unmentioned: the events of a report say once of each what became of
them, and of every row that was not evaluated that it was left out.

* `Outcome.Settled`: what holds of the outcome for one record, `settled_outcome`.
* `verdicts_of_report`, `notices_of_report`: whom the entries and suppressions of a run are about.
* `Report.verdicts_events`, `Report.notices_events`, `Report.skips_events`: the same, of events.
* `run_accounts_for_everyone`: the trail of a run.
-/

namespace OvertimeNotice

/-- The event says what became of an employee: their figures were reported, or they were not. -/
def Event.IsVerdict (e : Event) : Prop :=
  e.kindName ∈ ["planned_ordinary", "planned_forced", "not_notified"]

/-- The event is a notice sent to the employee alone. -/
def Event.IsNotice (e : Event) : Prop := e.kindName = "planned_self_escalation"

instance (e : Event) : Decidable e.IsVerdict := List.instDecidableMemOfLawfulBEq _ _

instance (e : Event) : Decidable e.IsNotice := instDecidableEqString _ _

/-- The event is about a row that was left out. -/
def Event.isSkip : Event → Bool
  | warned w => w.isSkip
  | _ => false

/-- The entry goes to the employee alone. -/
def PlanEntry.isNotice (e : PlanEntry) : Bool := e.kind == .selfEscalation

/-- Whom entries and suppressions say something of: those who were reported, those who were not. -/
def verdicts (es : List PlanEntry) (ss : List Suppressed) : List String :=
  (es.filter fun e => !e.isNotice).map (·.snapshot.employee) ++ ss.map (·.employee)

/-- To whom entries go directly. -/
def notices (es : List PlanEntry) : List String :=
  (es.filter (·.isNotice)).map (·.snapshot.employee)

namespace Planner

variable {σ : Type} {b : Backend σ} {c : Config} {r : OvertimeRecord} {s : Snapshot}

/-! ## One record -/

/-- The outcome says once what became of its employee, sends them at most one notice, and is about
nobody else. -/
structure Outcome.Settled (o : Outcome) : Prop where
  verdicts : verdicts o.entries o.suppressed = [o.snapshot.employee]
  notices : (notices o.entries).Sublist [o.snapshot.employee]

theorem isNotice_marked {k : Marker} {e : PlanEntry} {l : Ledger σ} :
    (marked b r k e l).1.1.isNotice = e.isNotice := by
  have h := congrArg PlanEntry.isNotice
    (marked_planned (b := b) (r := r) (k := k) (e := e) (l := l))
  exact h

theorem snapshot_marked {k : Marker} {e : PlanEntry} {l : Ledger σ} :
    (marked b r k e l).1.1.snapshot = e.snapshot := by
  have h := congrArg PlanEntry.snapshot
    (marked_planned (b := b) (r := r) (k := k) (e := e) (l := l))
  exact h

theorem settled_forcedOutcome : (forcedOutcome c r s).Settled :=
  ⟨rfl, List.nil_sublist _⟩

/-- The ordinary part says what became of the employee, and sends no notice. -/
theorem verdicts_ordinaryOutcome (hs : s.employee = r.employee) (l : Ledger σ) :
    let o := (ordinaryOutcome b c r s l).1
    o.snapshot = s ∧ verdicts o.entries o.suppressed = [s.employee] ∧ notices o.entries = [] := by
  intro o
  by_cases hn : s.severity.isNotifiable = true
  · cases hh : l.hasNotified b r.employee r.month (.level s.severity) with
    | mk sent l₁ =>
      cases sent with
      | true =>
        have ho : o = ⟨s, [], [⟨r.employee, s.percent, .alreadyNotified s.severity⟩], []⟩ := by
          simp only [o, ordinaryOutcome, if_pos hn, hh]
        rw [ho, hs]
        exact ⟨rfl, rfl, rfl⟩
      | false =>
        let m := marked b r (.level s.severity) (entry .ordinary .threshold
          (c.recipientsOf r.department r.employee r.identity .threshold s.severity) s) l₁
        have ho : o = ⟨s, [m.1.1], [], m.1.2⟩ := by
          simp only [o, ordinaryOutcome, if_pos hn, hh, m]
        have hnot : m.1.1.isNotice = false := isNotice_marked
        have hsnap : m.1.1.snapshot = s := snapshot_marked
        rw [ho]
        simp [verdicts, notices, hnot, hsnap]
  · have ho : o = ⟨s, [], [⟨r.employee, s.percent, .belowThreshold⟩], []⟩ := by
      simp only [o, ordinaryOutcome, if_neg hn]
    rw [ho, hs]
    exact ⟨rfl, rfl, rfl⟩

/-- Direct notice comes besides, once at most. -/
theorem settled_withEscalation {o : Outcome × Ledger σ}
    (hv : verdicts o.1.entries o.1.suppressed = [o.1.snapshot.employee])
    (hn : notices o.1.entries = []) : (withEscalation b c r o).1.Settled := by
  have hsettled : o.1.Settled := ⟨hv, hn ▸ List.nil_sublist _⟩
  cases hi : escalationIdentity? c r o.1.snapshot with
  | none => simpa only [withEscalation, hi] using hsettled
  | some identity =>
    cases hh : o.2.hasNotified b r.employee r.month .selfEscalation with
    | mk sent l₁ =>
      cases sent with
      | true => simpa only [withEscalation, hi, hh] using hsettled
      | false =>
        let m := marked b r .selfEscalation
          (entry .selfEscalation .threshold (.onlyEmployee identity) o.1.snapshot) l₁
        have ho : (withEscalation b c r o).1 = { o.1 with
            entries := o.1.entries ++ [m.1.1], warnings := o.1.warnings ++ m.1.2 } := by
          simp only [withEscalation, hi, hh, m]
        have hnotice : m.1.1.isNotice = true := isNotice_marked
        have hsnap : m.1.1.snapshot = o.1.snapshot := snapshot_marked
        rw [ho]
        constructor
        · simpa [verdicts, hnotice] using hv
        · simp [notices, hnotice, hsnap, show o.1.entries.filter (·.isNotice) = [] from
            List.map_eq_nil_iff.mp hn]

theorem settled_outcome (mode : RunMode) (hs : s.employee = r.employee) (l : Ledger σ) :
    (outcome b c mode r s l).1.Settled := by
  cases mode with
  | forced => exact settled_forcedOutcome
  | threshold =>
    obtain ⟨hsnap, hv, hn⟩ := verdicts_ordinaryOutcome (b := b) (c := c) hs l
    refine settled_withEscalation (o := ordinaryOutcome b c r s l) ?_ hn
    rw [hv, hsnap]

/-! ## A whole run -/

theorem settled_decideAll (mode : RunMode) {work : List (OvertimeRecord × Snapshot)}
    (hw : ∀ w ∈ work, w.2.employee = w.1.employee) (l : Ledger σ) :
    ∀ o ∈ (decideAll b c mode work l).1, o.Settled := by
  induction work generalizing l with
  | nil => exact nofun
  | cons w work ih =>
    obtain ⟨hs, hw⟩ := List.forall_mem_cons.mp hw
    exact List.forall_mem_cons.mpr ⟨settled_outcome mode hs l, ih hw _⟩

theorem verdicts_flatMap {os : List Outcome} (h : ∀ o ∈ os, o.Settled) :
    (verdicts (os.flatMap (·.entries)) (os.flatMap (·.suppressed))).Perm
      (os.map (·.snapshot.employee)) := by
  calc verdicts (os.flatMap (·.entries)) (os.flatMap (·.suppressed))
      = os.flatMap (fun o => (o.entries.filter fun e => !e.isNotice).map (·.snapshot.employee)) ++
          os.flatMap (fun o => o.suppressed.map (·.employee)) := by
        simp only [verdicts, List.filter_flatMap, List.map_flatMap]
    _ |>.Perm (os.flatMap fun o => verdicts o.entries o.suppressed) :=
        List.flatMap_append_perm _ _ _
    _ = os.map (·.snapshot.employee) := by
        rw [List.map_eq_flatMap]
        exact List.flatMap_congr fun o ho => (h o ho).verdicts

theorem notices_flatMap {os : List Outcome} (h : ∀ o ∈ os, o.Settled) :
    (notices (os.flatMap (·.entries))).Sublist (os.map (·.snapshot.employee)) := by
  have hnotices : notices (os.flatMap (·.entries)) = os.flatMap fun o => notices o.entries := by
    simp only [notices, List.filter_flatMap, List.map_flatMap]
  rw [hnotices, List.map_eq_flatMap]
  exact List.Sublist.flatMap_right _ fun o ho => (h o ho).notices

end Planner

/-! ## Events -/

namespace Event

theorem isVerdict_ofEntry (e : PlanEntry) : (ofEntry e).IsVerdict ↔ e.isNotice = false := by
  obtain ⟨kind, mode, recipients, snapshot, gap, persisted⟩ := e
  cases kind <;> simp [IsVerdict, ofEntry, kindName, PlanEntry.isNotice]

theorem isNotice_ofEntry (e : PlanEntry) : (ofEntry e).IsNotice ↔ e.isNotice = true := by
  obtain ⟨kind, mode, recipients, snapshot, gap, persisted⟩ := e
  cases kind <;> simp [IsNotice, ofEntry, kindName, PlanEntry.isNotice]

theorem isVerdict_ofSuppressed (x : Suppressed) : (ofSuppressed x).IsVerdict := by
  simp [IsVerdict, ofSuppressed, kindName]

theorem not_isNotice_ofSuppressed (x : Suppressed) : ¬(ofSuppressed x).IsNotice := by
  simp [IsNotice, ofSuppressed, kindName]

theorem not_isVerdict_warned (w : Warning) : ¬(warned w).IsVerdict := by
  simp [IsVerdict, kindName]

theorem not_isNotice_warned (w : Warning) : ¬(warned w).IsNotice := by
  simp [IsNotice, kindName]

end Event

namespace Report

theorem verdicts_events (rep : Report) :
    (rep.events.filter fun p => p.2.IsVerdict).map (·.1) = verdicts rep.entries rep.suppressed := by
  simp [events, verdicts, List.filter_map, Function.comp_def, Event.isVerdict_ofEntry,
    Event.isVerdict_ofSuppressed, Event.not_isVerdict_warned]

theorem notices_events (rep : Report) :
    (rep.events.filter fun p => p.2.IsNotice).map (·.1) = notices rep.entries := by
  simp [events, notices, List.filter_map, Function.comp_def, Event.isNotice_ofEntry,
    Event.not_isNotice_ofSuppressed, Event.not_isNotice_warned]

theorem skips_events (rep : Report) : (rep.events.filter fun p => p.2.isSkip) =
    (rep.warnings.filter Warning.isSkip).map fun w => (w.subject, .warned w) := by
  simp [events, List.filter_map, Function.comp_def, Event.isSkip, Event.ofEntry,
    Event.ofSuppressed]

/-- Every event is filed under the employee it is about. -/
theorem subject_of_mem_events {rep : Report} {p : String × Event} (h : p ∈ rep.events) :
    p.1 = p.2.subject := by
  simp only [events, List.mem_append, List.mem_map] at h
  rcases h with (⟨e, -, rfl⟩ | ⟨x, -, rfl⟩) | ⟨w, -, rfl⟩ <;> rfl

/-- An event is a verdict or a notice, or it is a warning. -/
theorem isVerdict_or_isNotice {rep : Report} {p : String × Event} (h : p ∈ rep.events)
    (hp : p.2.kindName ≠ "warning") : p.2.IsVerdict ∨ p.2.IsNotice := by
  simp only [events, List.mem_append, List.mem_map] at h
  rcases h with (⟨e, -, rfl⟩ | ⟨x, -, rfl⟩) | ⟨w, -, rfl⟩
  · rw [Event.isVerdict_ofEntry, Event.isNotice_ofEntry]
    exact (Bool.eq_false_or_eq_true _).symm
  · exact .inl (Event.isVerdict_ofSuppressed x)
  · exact absurd rfl hp

end Report

/-- How many events of a sort are filed under an identifier. -/
theorem countP_filed (es : List (String × Event)) (id : String) (p : Event → Prop)
    [DecidablePred p] : es.countP (fun e => e.1 = id ∧ p e.2) =
      ((es.filter fun e => p e.2).map (·.1)).count id := by
  rw [List.count, List.countP_map, List.countP_filter]
  refine List.countP_congr fun e _ => ?_
  simp

namespace Planner

variable {σ : Type} {b : Backend σ} {c : Config} {runId : String} {now : Moment}
  {decision : RunDecision} {rows : List RawRow} {l l' : Ledger σ} {rep : Report}

/-- What became of each employee, and who was sent a notice. -/
theorem settled_of_report (h : run b c runId now decision rows l = (.ok rep, l')) :
    (verdicts rep.entries rep.suppressed).Perm (rep.evaluated.map (·.employee)) ∧
      (notices rep.entries).Sublist (rep.evaluated.map (·.employee)) := by
  obtain ⟨work, hev, rfl, rfl⟩ := run_eq_ok h
  have hsettled := settled_decideAll (b := b) (c := c) decision.mode
    (fun w hw => (hev.workOf.subject w hw).1) l
  have hids : (report runId now.toMonth decision (decideAll b c decision.mode work l).2.drain.1
      (intake now.toMonth rows).warnings (decideAll b c decision.mode work l).1).evaluated.map
        (·.employee) = (decideAll b c decision.mode work l).1.map (·.snapshot.employee) :=
    List.map_map
  rw [hids]
  exact ⟨verdicts_flatMap hsettled, notices_flatMap hsettled⟩

/-- **Nobody goes unmentioned.** Of each employee who is evaluated the events of a report say just
once what became of them, and at most once that they were sent a notice; of others they say neither.
Each row that is not evaluated has an event in row order, under the identifier of its warning. The
events are those of the entries, then of the suppressions, then of the warnings, and each is filed
under the employee it is about. -/
theorem run_accounts_for_everyone (h : run b c runId now decision rows l = (.ok rep, l')) :
    (∀ id ∈ rep.evaluated.map (·.employee),
      rep.events.countP (fun p => p.1 = id ∧ p.2.IsVerdict) = 1 ∧
        rep.events.countP (fun p => p.1 = id ∧ p.2.IsNotice) ≤ 1) ∧
      (∀ p ∈ rep.events, p.2.kindName ≠ "warning" → p.1 ∈ rep.evaluated.map (·.employee)) ∧
      rep.events.filter (fun p => p.2.isSkip) =
        (l.warnings.filter Warning.isSkip ++ ((placed rows).filter fun p => ¬p.2.Counts p.1).map
          fun p => p.2.skip now.toMonth).map (fun w => (w.subject, .warned w)) ∧
      rep.events.map (·.2) = rep.entries.map Event.ofEntry ++
        rep.suppressed.map Event.ofSuppressed ++ rep.warnings.map Event.warned ∧
      ∀ p ∈ rep.events, p.1 = p.2.subject := by
  obtain ⟨hverdicts, hnotices⟩ := settled_of_report h
  have hnodup := nodup_of_report h
  refine ⟨fun id hid => ⟨?_, ?_⟩, fun p hp hkind => ?_, ?_, ?_, fun p hp =>
    Report.subject_of_mem_events hp⟩
  · rw [countP_filed, Report.verdicts_events, hverdicts.count_eq]
    exact List.count_eq_one_of_mem hnodup hid
  · rw [countP_filed, Report.notices_events]
    exact (hnotices.count_le id).trans (List.nodup_iff_count_le_one.mp hnodup id)
  · rcases Report.isVerdict_or_isNotice hp hkind with hv | hn
    · have hmem : p.1 ∈ verdicts rep.entries rep.suppressed := by
        rw [← Report.verdicts_events]
        exact List.mem_map_of_mem (List.mem_filter.mpr ⟨hp, decide_eq_true hv⟩)
      exact hverdicts.mem_iff.mp hmem
    · have hmem : p.1 ∈ notices rep.entries := by
        rw [← Report.notices_events]
        exact List.mem_map_of_mem (List.mem_filter.mpr ⟨hp, decide_eq_true hn⟩)
      exact hnotices.subset hmem
  · rw [Report.skips_events, skips_of_report h]
  · simp [Report.events, Function.comp_def]

theorem run_accounts_for_everyone_memory :
    ∃ rep l', RunRequest.assorted.on Backend.memory (.fresh .empty) = (.ok rep, l') ∧
      rep.events.map (fun p => (p.1, p.2.kindName)) = [
        ("1001", "planned_ordinary"), ("1001", "planned_self_escalation"),
        ("1002", "not_notified"), (" 1001", "warning"), ("1001", "warning"),
        ("1002", "warning"), ("1002", "warning")] ∧
      rep.events.countP (fun p => p.1 = "1001" ∧ p.2.IsVerdict) = 1 ∧
      rep.events.countP (fun p => p.1 = "1002" ∧ p.2.IsVerdict) = 1 := by
  have hrun : (RunRequest.assorted.on Backend.memory (.fresh .empty)).1.map (fun rep =>
      (rep.evaluated.map (·.employee), rep.events.map fun p => (p.1, p.2.kindName))) =
      .ok (["1001", "1002"], [("1001", "planned_ordinary"), ("1001", "planned_self_escalation"),
        ("1002", "not_notified"), (" 1001", "warning"), ("1001", "warning"),
        ("1002", "warning"), ("1002", "warning")]) := by
    decide +kernel
  cases h : RunRequest.assorted.on Backend.memory (.fresh .empty) with
  | mk answer l' =>
    rw [h] at hrun
    cases answer with
    | error f => exact nomatch hrun
    | ok rep =>
      obtain ⟨hids, hkinds⟩ := Prod.mk.inj (Except.ok.inj hrun)
      obtain ⟨hverdicts, -⟩ := run_accounts_for_everyone h
      refine ⟨rep, l', rfl, hkinds, (hverdicts _ ?_).1, (hverdicts _ ?_).1⟩
      · exact hids ▸ List.mem_cons_self
      · exact hids ▸ List.mem_cons_of_mem _ List.mem_cons_self

end Planner

end OvertimeNotice
