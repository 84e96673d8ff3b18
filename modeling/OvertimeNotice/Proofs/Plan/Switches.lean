import OvertimeNotice.Proofs.Ledger.Transparent
import OvertimeNotice.Proofs.Plan.Addressed
import OvertimeNotice.Proofs.Plan.Apart
import OvertimeNotice.Proofs.Plan.Unlisted

/-!
# The switches of self notification

Employees are told about themselves where that is switched on, and receive their own reports if they
are listed besides. What the switches take away is exactly that.

* `Config.silenced`: self notification switched off.
* `Steps.faithful`: what a run does to a backend that never fails.
* `decideAll_silenced`: the decisions with self notification switched off.
* `run_switches`: what either switch takes away from a run.
-/

namespace OvertimeNotice

/-- The configuration with self notification switched off. -/
def Config.silenced (c : Config) : Config :=
  { c with selfNotify := { c.selfNotify with enabled := false } }

/-- The entry is not direct notice. -/
def PlanEntry.isReport (e : PlanEntry) : Bool := e.kind != .selfEscalation

namespace Planner

variable {σ : Type} {b : Backend σ} {good : σ → Prop} {held : σ → Finset Mark} {c : Config}
  {month : Month}

/-! ## Steps over a backend that never fails -/

/-- Over a backend that never fails every mark is written, and no warning is raised. -/
theorem Steps.faithful {l l' : Ledger σ} {es : List PlanEntry} {asked : Prop}
    (hb : b.Faithful good held) (h : Steps b month l l' es asked) (hg : good l.store) :
    good l'.store ∧ (∀ e ∈ es, e.statePersisted = true) ∧ l'.warnings = l.warnings ∧
      ∀ x, x ∈ held l'.store ↔ x ∈ held l.store ∨ x ∈ es.filterMap PlanEntry.mark? := by
  have hloaded : ∀ l : Ledger σ, good l.store → (l.loaded b month).warnings = l.warnings := by
    intro l hg
    obtain ⟨es, s', hl, -⟩ := hb.load month hg
    unfold Ledger.loaded
    split
    · rfl
    · simp only [hl]
  induction h with
  | idle => exact ⟨hg, by simp, rfl, by simp⟩
  | @looked l asked h =>
    obtain ⟨hg', hh⟩ := Ledger.good_store_loaded hb hg month
    exact ⟨hg', by simp, hloaded l hg, by simp [hh]⟩
  | @sent l asked r k e h hr hk he hn hnew =>
    subst hr
    obtain ⟨hg', hh⟩ := Ledger.good_store_loaded hb hg r.month
    obtain ⟨s', hu, hg'', hh'⟩ := hb.upsert ⟨r.employee, r.month, k⟩ hg'
    obtain ⟨hstore, hpersisted⟩ := marked_of_new he hnew
    rw [hu] at hstore hpersisted
    have hnew' : (r.employee, k) ∉ (l.loaded b r.month).standing b r.month := by
      rwa [Ledger.standing_loaded]
    have hwarnings : (marked b r k e (l.loaded b r.month)).2.warnings = l.warnings := by
      rw [marked_ledger, Ledger.markNotified_of_not_mem hnew']
      exact (hloaded _ hg').trans (hloaded l hg)
    refine ⟨hstore ▸ hg'', fun e he => ?_, hwarnings, fun x => ?_⟩
    · rw [List.mem_singleton.mp he, hpersisted]
      rfl
    · rw [hstore, hh', hh, Finset.mem_insert, List.filterMap_cons, mark?_marked, hk]
      simp [or_comm]
  | trans _ _ ih ih₁ =>
    obtain ⟨hg', hp, hw, hh⟩ := ih hg
    obtain ⟨hg'', hp', hw', hh'⟩ := ih₁ hg'
    refine ⟨hg'', fun e he => ?_, hw'.trans hw, fun x => ?_⟩
    · exact (List.mem_append.mp he).elim (hp e) (hp' e)
    · rw [hh', hh, List.filterMap_append, List.mem_append, or_assoc]

/-- Months other than that of the run are kept as they were. -/
theorem Steps.cached?_of_ne {l l' : Ledger σ} {es : List PlanEntry} {asked : Prop}
    (h : Steps b month l l' es asked) {m : Month} (hm : m ≠ month) :
    l'.cached? m = l.cached? m := by
  induction h with
  | idle => rfl
  | looked => exact Ledger.cached?_loaded_of_ne b hm _
  | @sent l asked r k e h hr hk he hn hnew =>
    subst hr
    rw [marked_ledger, Ledger.cached?_markNotified_of_ne hm, Ledger.cached?_loaded_of_ne b hm]
  | trans _ _ ih ih₁ => rw [ih₁, ih]

/-! ## Self notification switched off -/

section

variable {r : OvertimeRecord} {s : Snapshot} {sent : MonthMarks}

theorem entry_silenced (kind : EntryKind) (mode mode' : RunMode) (employee : String)
    (identity : Option String) (s : Snapshot) :
    entry kind mode (c.silenced.recipientsOf r.department employee identity mode' s.severity) s =
      (entry kind mode (c.recipientsOf r.department employee identity mode' s.severity)
        s).toManagers := by
  have hself : c.silenced.selfAllowed employee = false := rfl
  have hmanagers : c.silenced.managers r.department = c.managers r.department := rfl
  simp [entry, PlanEntry.toManagers, Config.recipientsOf, Recipients.isEmpty, hself, hmanagers]

theorem stepEntries_silenced : stepEntries c.silenced sent r s =
    (stepEntries c sent r s).map PlanEntry.toManagers := by
  unfold stepEntries
  split
  · rw [entry_silenced]
    rfl
  · rfl

theorem noticeEntries_silenced : noticeEntries c.silenced sent r s = [] := by
  unfold noticeEntries
  split
  · exact if_neg fun h => nomatch h.1
  · rfl

/-- Direct notices go, and the other entries are for managers alone. -/
theorem dueEntries_silenced (work : List (OvertimeRecord × Snapshot)) :
    work.flatMap (fun w =>
        stepEntries c.silenced sent w.1 w.2 ++ noticeEntries c.silenced sent w.1 w.2) =
      ((work.flatMap fun w => stepEntries c sent w.1 w.2 ++ noticeEntries c sent w.1 w.2).filter
        PlanEntry.isReport).map PlanEntry.toManagers := by
  rw [List.filter_flatMap, List.map_flatMap]
  refine List.flatMap_congr fun w _ => ?_
  have hsteps : (stepEntries c sent w.1 w.2).filter PlanEntry.isReport =
      stepEntries c sent w.1 w.2 := by
    refine List.filter_eq_self.mpr fun e he => ?_
    simp [PlanEntry.isReport, (mem_stepEntries he).1]
  have hnotices : (noticeEntries c sent w.1 w.2).filter PlanEntry.isReport = [] := by
    refine List.filter_eq_nil_iff.mpr fun e he => ?_
    simp [PlanEntry.isReport, (mem_noticeEntries he).1]
  rw [stepEntries_silenced, noticeEntries_silenced, List.filter_append, hsteps, hnotices,
    List.append_nil, List.append_nil]

end

end Planner

/-- The ledgers answer the same, and the backends hold the same, but for marks of direct notice. -/
def Ledger.SameSteps {σ : Type} (b : Backend σ) (held : σ → Finset Mark) (l l' : Ledger σ) : Prop :=
  ∀ x : Mark, x.marker ≠ .selfEscalation →
    (l'.hasNotified b x.employee x.month x.marker).1 =
        (l.hasNotified b x.employee x.month x.marker).1 ∧
      (x ∈ held l'.store ↔ x ∈ held l.store)

namespace Planner

variable {σ : Type} {b : Backend σ} {good : σ → Prop} {held : σ → Finset Mark} {c : Config}
  {month : Month}

/-- Two runs that mark the same steps leave ledgers that differ in direct notices at most. -/
theorem Steps.sameSteps {l l₁ l₂ : Ledger σ} {es₁ es₂ : List PlanEntry} {asked₁ asked₂ : Prop}
    (hb : b.Faithful good held) (hg : good l.store) (h₁ : Steps b month l l₁ es₁ asked₁)
    (h₂ : Steps b month l l₂ es₂ asked₂)
    (hes : ∀ x : Mark, x.marker ≠ .selfEscalation →
      (x ∈ es₂.filterMap PlanEntry.mark? ↔ x ∈ es₁.filterMap PlanEntry.mark?)) :
    Ledger.SameSteps b held l₁ l₂ := by
  obtain ⟨hg₁, -, -, hh₁⟩ := h₁.faithful hb hg
  obtain ⟨hg₂, -, -, hh₂⟩ := h₂.faithful hb hg
  intro x hx
  have hheld : x ∈ held l₂.store ↔ x ∈ held l₁.store := by rw [hh₁, hh₂, hes x hx]
  refine ⟨?_, hheld⟩
  rw [Ledger.hasNotified_eq, Ledger.hasNotified_eq, Bool.eq_iff_iff, List.contains_iff_mem,
    List.contains_iff_mem]
  by_cases hm : x.month = month
  · subst hm
    rw [h₁.standing, h₂.standing, hes x hx]
  · have hc₁ := h₁.cached?_of_ne hm
    have hc₂ := h₂.cached?_of_ne hm
    cases hc : l.cached? x.month with
    | some ms =>
      rw [Ledger.standing_of_cached (hc₁.trans hc), Ledger.standing_of_cached (hc₂.trans hc)]
    | none =>
      rw [Ledger.mem_standing_of_not_cached hb hg₁ (hc₁.trans hc),
        Ledger.mem_standing_of_not_cached hb hg₂ (hc₂.trans hc), hheld]

theorem mem_marks_silenced {es : List PlanEntry} {x : Mark} (hx : x.marker ≠ .selfEscalation) :
    x ∈ ((es.filter PlanEntry.isReport).map PlanEntry.toManagers).filterMap PlanEntry.mark? ↔
      x ∈ es.filterMap PlanEntry.mark? := by
  simp only [List.mem_filterMap, List.mem_map, List.mem_filter]
  constructor
  · rintro ⟨_, ⟨e, ⟨he, -⟩, rfl⟩, hk⟩
    exact ⟨e, he, hk⟩
  · rintro ⟨e, he, hk⟩
    refine ⟨_, ⟨e, ⟨he, ?_⟩, rfl⟩, hk⟩
    rw [PlanEntry.isReport, bne_iff_ne]
    intro hkind
    rw [PlanEntry.mark?, PlanEntry.marker?, hkind] at hk
    exact hx (Mark.mk.inj (Option.some.inj hk)).2.2.symm

theorem map_planned_of_persisted {es : List PlanEntry} (h : ∀ e ∈ es, e.statePersisted = true) :
    es.map PlanEntry.planned = es := by
  refine (List.map_congr_left fun e he => ?_).trans (List.map_id es)
  rw [PlanEntry.planned, ← h e he]
  rfl

/-- With self notification switched off, direct notices are not decided on, and the other entries
are for managers alone. -/
theorem decideAll_silenced {mode : RunMode} {work : List (OvertimeRecord × Snapshot)}
    {l : Ledger σ} (hb : b.Faithful good held) (hg : good l.store) (hw : WorkOf month work) :
    let d := decideAll b c mode work l
    let d' := decideAll b c.silenced mode work l
    d'.1.map (·.snapshot) = d.1.map (·.snapshot) ∧
      d'.1.flatMap (·.suppressed) = d.1.flatMap (·.suppressed) ∧
      d'.1.flatMap (·.entries) =
        ((d.1.flatMap (·.entries)).filter PlanEntry.isReport).map PlanEntry.toManagers ∧
      (∀ e ∈ d.1.flatMap (·.entries), e.statePersisted = true) ∧
      d.2.warnings = l.warnings ∧ d'.2.warnings = l.warnings ∧
      Ledger.SameSteps b held d.2 d'.2 := by
  cases mode with
  | forced =>
    obtain ⟨hl, hkind⟩ := decideAll_forced (b := b) (c := c) work l
    obtain ⟨hl', -⟩ := decideAll_forced (b := b) (c := c.silenced) work l
    simp only [hl, hl', decideAll_forced_eq, List.map_map, List.flatMap_map]
    refine ⟨rfl, rfl, ?_, ?_, trivial, trivial, fun x _ => ⟨rfl, Iff.rfl⟩⟩
    · rw [List.filter_flatMap, List.map_flatMap]
      refine List.flatMap_congr fun w _ => ?_
      simp only [forcedOutcome, entry_silenced]
      rfl
    · intro e he
      obtain ⟨w, -, he⟩ := List.mem_flatMap.mp he
      rw [List.mem_singleton.mp he]
      rfl
  | threshold =>
    obtain ⟨hsnap, hentries, hsupp, hsteps⟩ :=
      decideAll_threshold (b := b) (c := c) (l := l) hw
    obtain ⟨hsnap', hentries', hsupp', hsteps'⟩ :=
      decideAll_threshold (b := b) (c := c.silenced) (l := l) hw
    obtain ⟨-, hpersisted, hwarnings, -⟩ := hsteps.faithful hb hg
    obtain ⟨-, hpersisted', hwarnings', -⟩ := hsteps'.faithful hb hg
    have hes : (decideAll b c.silenced .threshold work l).1.flatMap (·.entries) =
        (((decideAll b c .threshold work l).1.flatMap (·.entries)).filter
          PlanEntry.isReport).map PlanEntry.toManagers := by
      rw [← map_planned_of_persisted hpersisted', hentries', dueEntries_silenced, ← hentries,
        map_planned_of_persisted hpersisted]
    refine ⟨hsnap'.trans hsnap.symm, hsupp'.trans hsupp.symm, hes, hpersisted, hwarnings,
      hwarnings', hsteps.sameSteps hb hg hsteps' fun x hx => ?_⟩
    rw [hes]
    exact mem_marks_silenced hx

/-- **What the switches of self notification take away.** Without an employee on the list, a run
gives the same report, but that their entries other than direct notice are for the managers alone,
with the warnings about recipients that follow, and it leaves the same ledger. With self
notification switched off, and a backend that never fails, it gives the same report without direct
notices, every entry for the managers alone, and leaves the same marks, but for those of direct
notice. -/
theorem run_switches {runId : String} {now : Moment} {decision : RunDecision}
    {rows : List RawRow} {l l' : Ledger σ} {rep : Report}
    (h : run b c runId now decision rows l = (.ok rep, l')) :
    (∀ e ∈ rep.entries, e.recipientGap = e.recipients.isEmpty) ∧
    (∀ employee, ∃ rep', run b (c.unlisting employee) runId now decision rows l = (.ok rep', l') ∧
      rep' = { rep with
        entries := rep.entries.map (PlanEntry.unlisting employee)
        warnings := rep'.warnings } ∧
      ∃ before failures ws ws', rep.warnings = before ++ ws ∧ Warned rep.entries failures ws ∧
        rep'.warnings = before ++ ws' ∧ Warned rep'.entries failures ws') ∧
    ∀ good held, b.Faithful good held → good l.store →
      ∃ rep' l'', run b c.silenced runId now decision rows l = (.ok rep', l'') ∧
        rep' = { rep with
          entries := (rep.entries.filter PlanEntry.isReport).map PlanEntry.toManagers
          warnings := rep'.warnings } ∧
        (∃ before, rep.warnings = before ++ rep.entries.flatMap gapWarnings ∧
          rep'.warnings = before ++ rep'.entries.flatMap gapWarnings) ∧
        Ledger.SameSteps b held l' l'' := by
  refine ⟨recipientGap_of_report h, run_unlisting h, fun good held hb hg => ?_⟩
  obtain ⟨work, hev, rfl, rfl⟩ := run_eq_ok h
  obtain ⟨hsnap, hsupp, hentries, hpersisted, hwarnings, hwarnings', hledgers⟩ :=
    decideAll_silenced (c := c) hb hg hev.workOf
  obtain ⟨_, hw⟩ := warned_decideAll (b := b) (c := c) decision.mode hev.workOf.subject l
  obtain ⟨_, hw'⟩ := warned_decideAll (b := b) (c := c.silenced) decision.mode hev.workOf.subject l
  have hpersisted' : ∀ e ∈ (decideAll b c.silenced decision.mode work l).1.flatMap (·.entries),
      e.statePersisted = true := by
    rw [hentries]
    intro e he
    obtain ⟨e', he', rfl⟩ := List.mem_map.mp he
    exact hpersisted e' (List.mem_of_mem_filter he')
  have hev' : Evaluated c.silenced (intake now.toMonth rows).records work :=
    ⟨hev.records, hev.snapshot⟩
  refine ⟨_, _, run_of_evaluated (b := b) hev' runId decision l, ?_,
    ⟨l.warnings ++ (intake now.toMonth rows).warnings, ?_, ?_⟩, ?_⟩
  · simp only [report, hsnap, hsupp, hentries]
  · simp only [report, Ledger.drain, hwarnings, hw.eq_gaps hpersisted]
  · simp only [report, Ledger.drain, hwarnings', hw'.eq_gaps hpersisted']
  · intro x hx
    obtain ⟨hasked, hheld⟩ := hledgers x hx
    refine ⟨?_, hheld⟩
    simpa only [Ledger.hasNotified_eq, (Ledger.alike_drain _).standing] using hasked

/-- An employee at the ceiling whose department has no managers. -/
private def unmanaged : RunRequest :=
  let q := RunRequest.trial 600 600 .threshold
  { q with config := { q.config with recipients := TextMap.empty } }

private def delivery (e : PlanEntry) : EntryKind × Option String × Bool :=
  (e.kind, e.recipients.employee, e.recipientGap)

/-- The report on the step is left without a recipient by either switch; direct notice goes with the
second one alone. -/
theorem run_switches_memory :
    ∃ rep l', unmanaged.on Backend.memory (.fresh .empty) = (.ok rep, l') ∧
      rep.entries.map delivery = [(.ordinary, some "ann@example.com", false),
        (.selfEscalation, some "ann@example.com", false)] ∧
      (∃ rep', { unmanaged with config := unmanaged.config.unlisting "1001" }.on Backend.memory
          (.fresh .empty) = (.ok rep', l') ∧
        rep'.entries.map delivery =
          [(.ordinary, none, true), (.selfEscalation, some "ann@example.com", false)]) ∧
      ∃ rep' l'', { unmanaged with config := unmanaged.config.silenced }.on Backend.memory
          (.fresh .empty) = (.ok rep', l'') ∧
        rep'.entries.map delivery = [(.ordinary, none, true)] ∧
        Ledger.SameSteps Backend.memory (fun s => s.marks.toFinset) l' l'' := by
  have hrun : (unmanaged.on Backend.memory (.fresh .empty)).1.map (fun rep =>
      [rep.entries.map delivery,
        (rep.entries.map (PlanEntry.unlisting "1001")).map delivery,
        ((rep.entries.filter PlanEntry.isReport).map PlanEntry.toManagers).map delivery]) =
      .ok [[(.ordinary, some "ann@example.com", false),
          (.selfEscalation, some "ann@example.com", false)],
        [(.ordinary, none, true), (.selfEscalation, some "ann@example.com", false)],
        [(.ordinary, none, true)]] := by
    decide +kernel
  cases h : unmanaged.on Backend.memory (.fresh .empty) with
  | mk answer l' =>
    cases answer with
    | error f => rw [h] at hrun; exact nomatch hrun
    | ok rep =>
      rw [h] at hrun
      obtain ⟨hentries, hunlisted, hsilenced, -⟩ := by
        simpa only [Except.map, Except.ok.injEq, List.cons.injEq] using hrun
      obtain ⟨-, hunlisting, hsilencing⟩ := run_switches h
      obtain ⟨rep₁, hrun₁, hrep₁, -⟩ := hunlisting "1001"
      obtain ⟨rep₂, l'', hrun₂, hrep₂, -, hledgers⟩ :=
        hsilencing _ _ Backend.memory_faithful ⟨rfl, rfl, rfl⟩
      refine ⟨rep, l', rfl, hentries, ⟨rep₁, hrun₁, ?_⟩, rep₂, l'', hrun₂, ?_, hledgers⟩
      · rw [hrep₁]
        exact hunlisted
      · rw [hrep₂]
        exact hsilenced

end Planner

end OvertimeNotice
