import Mathlib.Data.List.Nodup
import OvertimeNotice.Proofs.Plan.Persistence

/-!
# What a run reports is new

A run reports no step twice and none that was sent before, and leaves out none that was not.

* `News`: a report beside the marks that were held before it.
* `Steps.nodup_marks`, `Steps.mark_new`: what is sent step by step is new.
* `steps_of_report`: every run that gives a report goes by such steps.
* `run_news`: a run brings news.
-/

namespace OvertimeNotice

/-- Entries of different marks: at most one of them has a given mark. -/
theorem PlanEntry.countP_le_one {es : List PlanEntry} {p : PlanEntry → Prop} [DecidablePred p]
    {x : Mark} (h : (es.filterMap PlanEntry.mark?).Nodup)
    (hp : ∀ e ∈ es, p e → e.mark? = some x) : es.countP p ≤ 1 := by
  calc es.countP p ≤ es.countP fun e => e.mark? == some x :=
        List.countP_mono_left fun e he hpe => by simpa using hp e he (of_decide_eq_true hpe)
    _ = (es.filterMap PlanEntry.mark?).count x := by rw [List.count_filterMap]
    _ ≤ 1 := List.nodup_iff_count_le_one.mp h x

namespace Planner

/-- The marks of the report are new beside those `held`, each once. In a run on steps newly reached
every entry has one, and no step is left out that is not among those held. -/
structure News (month : Month) (held : List Mark) (rep : Report) : Prop where
  nodup : (rep.entries.filterMap PlanEntry.mark?).Nodup
  new : ∀ x ∈ rep.entries.filterMap PlanEntry.mark?, x.month = month ∧ x ∉ held
  marked : rep.decision.mode = .threshold → ∀ e ∈ rep.entries, e.mark?.isSome = true
  covers : rep.decision.mode = .threshold → ∀ s ∈ rep.evaluated, s.severity.isNotifiable = true →
    s.month = month ∧ ((∃ e ∈ rep.entries, e.kind = .ordinary ∧ e.snapshot = s) ∨
      ⟨s.employee, month, .level s.severity⟩ ∈ held)

variable {σ : Type} {b : Backend σ} {c : Config} {month : Month} {l l' : Ledger σ}
  {es : List PlanEntry} {asked : Prop}

theorem Steps.isSome_mark? (h : Steps b month l l' es asked) : ∀ e ∈ es, e.mark?.isSome = true := by
  induction h with
  | idle => simp
  | looked => simp
  | sent _ _ hk _ _ _ =>
    intro e he
    rw [List.mem_singleton.mp he, mark?_marked, hk]
    rfl
  | trans _ _ ih ih₁ =>
    intro e he
    rcases List.mem_append.mp he with he | he
    · exact ih e he
    · exact ih₁ e he

/-- What is sent was not sent before. -/
theorem Steps.mark_new (h : Steps b month l l' es asked) :
    ∀ x ∈ es.filterMap PlanEntry.mark?, x.month = month ∧
      (x.employee, x.marker) ∉ l.standing b month := by
  induction h with
  | idle => simp
  | looked => simp
  | @sent l asked r k e _ hr hk _ _ hnew =>
    intro x hx
    obtain ⟨e', he', hx⟩ := List.mem_filterMap.mp hx
    rw [List.mem_singleton.mp he', mark?_marked, hk, Option.some.injEq] at hx
    subst hx
    exact ⟨rfl, hnew⟩
  | trans h _ ih ih' =>
    intro x hx
    rw [List.filterMap_append, List.mem_append] at hx
    rcases hx with hx | hx
    · exact ih x hx
    · obtain ⟨hmonth, hnot⟩ := ih' x hx
      exact ⟨hmonth, fun hin => hnot ((h.standing _).mpr (.inl hin))⟩

theorem Steps.nodup_marks (h : Steps b month l l' es asked) :
    (es.filterMap PlanEntry.mark?).Nodup := by
  induction h with
  | idle => exact List.nodup_nil
  | looked => exact List.nodup_nil
  | @sent l asked r k e _ _ hk _ _ _ =>
    rw [List.filterMap_cons, mark?_marked, hk]
    exact List.pairwise_singleton _ _
  | @trans l l₁ l₂ es es₁ _ _ h h₁ ih ih₁ =>
    rw [List.filterMap_append]
    refine List.nodup_append.mpr ⟨ih, ih₁, fun x hx y hy hxy => ?_⟩
    subst hxy
    -- the first steps leave their marks standing, where the later ones would find them
    obtain ⟨hmonth, hnot⟩ := h₁.mark_new x hy
    refine hnot ((h.standing _).mpr (.inr ?_))
    obtain ⟨e, he, hm⟩ := List.mem_filterMap.mp hx
    refine List.mem_filterMap.mpr ⟨e, he, ?_⟩
    rw [hm, ← hmonth]

/-- A run that gives a report goes by steps, and its entries have their marks: those of a run on
everyone have none, and it takes no step. -/
theorem steps_of_report {q : RunRequest} {rep : Report} (h : q.on b l = (.ok rep, l')) :
    ∃ es asked l₁, Steps b q.now.toMonth l l₁ es asked ∧ l' = l₁.drain.2 ∧
      rep.entries.filterMap PlanEntry.mark? = es.filterMap PlanEntry.mark? := by
  obtain ⟨work, hev, hrep, hl⟩ := run_eq_ok h
  cases hmode : q.decision.mode with
  | threshold =>
    rw [hmode] at hrep hl
    obtain ⟨-, -, -, hsteps⟩ :=
      decideAll_threshold (b := b) (c := q.config) (l := l) hev.workOf
    exact ⟨_, _, _, hsteps, hl, by rw [hrep, report]⟩
  | forced =>
    rw [hmode] at hrep hl
    obtain ⟨hsame, hes⟩ := decideAll_forced (b := b) (c := q.config) work l
    refine ⟨[], False, l, .idle id, by rw [hl, hsame], ?_⟩
    rw [hrep]
    exact List.filterMap_eq_nil_iff.mpr fun e he => mark?_of_forced (hes e he)

theorem mem_stepEntries_of_due {sent : MonthMarks} {r : OvertimeRecord} {s : Snapshot}
    (h : StepDue sent s) : ∃ e ∈ stepEntries c sent r s, e.kind = .ordinary ∧ e.snapshot = s := by
  rw [stepEntries, if_pos h]
  exact ⟨_, List.mem_singleton_self _, rfl, rfl⟩

theorem run_news {runId : String} {now : Moment} {decision : RunDecision} {rows : List RawRow}
    {rep : Report} {held : List Mark}
    (hheld : ∀ p : String × Marker, p ∈ l.standing b now.toMonth ↔ ⟨p.1, now.toMonth, p.2⟩ ∈ held)
    (h : run b c runId now decision rows l = (.ok rep, l')) : News now.toMonth held rep := by
  obtain ⟨work, hev, rfl, rfl⟩ := run_eq_ok h
  cases hmode : decision.mode with
  | threshold =>
    have hw := hev.workOf
    obtain ⟨hsnap, hentries, -, hsteps⟩ := decideAll_threshold (b := b) (c := c) (l := l) hw
    refine ⟨hsteps.nodup_marks, fun x hx => ?_, fun _ => hsteps.isSome_mark?, fun _ s hs hn => ?_⟩
    · obtain ⟨hmonth, hnot⟩ := hsteps.mark_new x hx
      refine ⟨hmonth, fun hin => hnot ((hheld _).mpr ?_)⟩
      rw [← hmonth]
      exact hin
    · replace hs : s ∈ (decideAll b c .threshold work l).1.map (·.snapshot) := hs
      rw [hsnap] at hs
      obtain ⟨w, hwork, rfl⟩ := List.mem_map.mp hs
      refine ⟨(hw.subject w hwork).2.trans (hw.month w hwork), ?_⟩
      by_cases hsent : (w.2.employee, .level w.2.severity) ∈ l.standing b now.toMonth
      · exact .inr ((hheld _).mp hsent)
      · left
        obtain ⟨p, hp, hkind, hsnapshot⟩ := mem_stepEntries_of_due (c := c) (r := w.1) ⟨hn, hsent⟩
        have hplanned : p ∈ ((decideAll b c .threshold work l).1.flatMap (·.entries)).map
            PlanEntry.planned := by
          rw [hentries]
          exact List.mem_flatMap.mpr ⟨w, hwork, List.mem_append_left _ hp⟩
        obtain ⟨e, he, rfl⟩ := List.mem_map.mp hplanned
        exact ⟨e, he, hkind, hsnapshot⟩
  | forced =>
    obtain ⟨-, hes⟩ := decideAll_forced (b := b) (c := c) work l
    have hnone : (report runId now.toMonth decision (decideAll b c .forced work l).2.drain.1
        (intake now.toMonth rows).warnings (decideAll b c .forced work l).1).entries.filterMap
          PlanEntry.mark? = [] := by
      rw [List.filterMap_eq_nil_iff]
      exact fun e he => mark?_of_forced (hes e he)
    have hnot : decision.mode ≠ .threshold := by
      rw [hmode]
      decide
    refine ⟨?_, ?_, fun h => absurd h hnot, fun h => absurd h hnot⟩
    · rw [hnone]
      exact List.nodup_nil
    · rw [hnone]
      simp

end Planner

end OvertimeNotice
