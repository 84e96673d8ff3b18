import Mathlib.Data.List.Forall2
import OvertimeNotice.Proofs.Plan.Addressed
import OvertimeNotice.Proofs.Plan.Rows

/-!
# Warnings and flags

A report warns of what went wrong on the way to it and of nothing else: of the month if it could not
be loaded, of each row that was left out, and of each entry what its flags say.

* `GapTold`, `Told`: the warnings that the flags of an entry ask for.
* `Passage`: what a run does to its ledger, with the entries and the warnings that come of it.
* `Heard`: what happens at the backend on the way, and what the ledger warns of.
* `Passage.heard`: what is heard and told along a run.
* `run_warns`: the warnings of a report.
-/

namespace OvertimeNotice

theorem PlanEntry.mark?_eq_some {e : PlanEntry} {x : Mark} : e.mark? = some x ↔
    e.marker? = some x.marker ∧ e.snapshot.employee = x.employee ∧ e.snapshot.month = x.month := by
  rw [mark?, Option.map_eq_some_iff]
  constructor
  · rintro ⟨k, hk, rfl⟩
    exact ⟨hk, rfl, rfl⟩
  · rintro ⟨hk, he, hm⟩
    exact ⟨x.marker, hk, by rw [he, hm]⟩

namespace Planner

/-! ## The warnings of an entry -/

/-- There is a warning that an entry has no recipient just if the entry says so. -/
inductive GapTold (e : PlanEntry) : List Warning → Prop where
  | none (h : e.recipientGap = false) : GapTold e []
  | gap (h : e.recipientGap = true) :
      GapTold e [.recipientGap e.snapshot.employee e.snapshot.department]

theorem gapTold_gapWarnings (e : PlanEntry) : GapTold e (gapWarnings e) := by
  unfold gapWarnings
  split
  · rename_i hgap
    exact .gap hgap
  · rename_i hgap
    exact .none (Bool.eq_false_iff.mpr hgap)

/-- The warnings about an entry are those that its flags ask for: that it has no recipient, and
behind that, if its mark was not written, what was answered when that was tried. -/
inductive Told (events : List BackendEvent) (e : PlanEntry) : List Warning → Prop where
  | written {ws : List Warning} (hgap : GapTold e ws) (h : e.statePersisted = true) :
      Told events e ws
  | unwritten {ws : List Warning} {k : Marker} {f : Failure} (hgap : GapTold e ws)
      (h : e.statePersisted = false) (hk : e.marker? = some k)
      (hf : .upsert ⟨e.snapshot.employee, e.snapshot.month, k⟩ (.error f) ∈ events) :
      Told events e (ws ++ [.stateWriteFailed e.snapshot.employee k f.message])

theorem Told.mono {events events' : List BackendEvent} {e : PlanEntry} {ws : List Warning}
    (hsub : events ⊆ events') (h : Told events e ws) : Told events' e ws := by
  cases h with
  | written hgap h => exact .written hgap h
  | unwritten hgap h hk hf => exact .unwritten hgap h hk (hsub hf)

variable {σ : Type} {b : Backend σ} {c : Config} {month : Month} {r : OvertimeRecord}
  {s : Snapshot} {es : List PlanEntry} {ws : List Warning}

/-! ## What a run does -/

/-- What a run does on the way from one ledger to another, with the entries and the warnings that
come of it: it looks its month up, adds entries, and marks them. -/
inductive Passage (b : Backend σ) (month : Month) :
    Ledger σ → Ledger σ → List PlanEntry → List Warning → Prop where
  | idle (l : Ledger σ) : Passage b month l l [] []
  | looked (l : Ledger σ) : Passage b month l (l.loaded b month) [] []
  | reported (l : Ledger σ) {e : PlanEntry} (he : e.statePersisted = true) :
      Passage b month l l [e] (gapWarnings e)
  | sent (l : Ledger σ) {r : OvertimeRecord} {k : Marker} {e : PlanEntry} (hr : r.month = month)
      (hk : e.mark? = some ⟨r.employee, month, k⟩) (he : e.statePersisted = true) :
      Passage b month l (marked b r k e l).2 [(marked b r k e l).1.1] (marked b r k e l).1.2
  | trans {l l₁ l₂ : Ledger σ} {es es₁ : List PlanEntry} {ws ws₁ : List Warning}
      (h : Passage b month l l₁ es ws) (h₁ : Passage b month l₁ l₂ es₁ ws₁) :
      Passage b month l l₂ (es ++ es₁) (ws ++ ws₁)

theorem ledger_of_hasNotified {l l₁ : Ledger σ} {employee : String} {k : Marker} {sent : Bool}
    (h : l.hasNotified b employee month k = (sent, l₁)) : l.loaded b month = l₁ := by
  rw [Ledger.hasNotified_eq] at h
  exact (Prod.mk.inj h).2

theorem passage_ordinaryOutcome (hs : s.employee = r.employee) (hm : s.month = r.month)
    (l : Ledger σ) :
    let o := ordinaryOutcome b c r s l
    o.1.snapshot = s ∧ Passage b r.month l o.2 o.1.entries o.1.warnings := by
  unfold ordinaryOutcome
  dsimp only
  split
  · split
    · rename_i hsent
      obtain rfl := ledger_of_hasNotified hsent
      exact ⟨rfl, .looked l⟩
    · rename_i hsent
      obtain rfl := ledger_of_hasNotified hsent
      refine ⟨rfl, (Passage.looked l).trans (.sent _ rfl ?_ rfl)⟩
      rw [← hs, ← hm]
      rfl
  · exact ⟨rfl, .idle l⟩

theorem passage_withEscalation {o : Outcome × Ledger σ} {l : Ledger σ}
    (hs : o.1.snapshot.employee = r.employee) (hm : o.1.snapshot.month = r.month)
    (h : Passage b r.month l o.2 o.1.entries o.1.warnings) :
    let o' := withEscalation b c r o
    Passage b r.month l o'.2 o'.1.entries o'.1.warnings := by
  unfold withEscalation
  dsimp only
  split
  · exact h
  · split
    · rename_i hsent
      obtain rfl := ledger_of_hasNotified hsent
      have hlooked := h.trans (.looked o.2)
      rwa [List.append_nil, List.append_nil] at hlooked
    · rename_i hsent
      obtain rfl := ledger_of_hasNotified hsent
      refine h.trans ((Passage.looked o.2).trans (.sent _ rfl ?_ rfl))
      rw [← hs, ← hm]
      rfl

theorem passage_outcome (mode : RunMode) (hs : s.employee = r.employee) (hm : s.month = r.month)
    (l : Ledger σ) :
    let o := outcome b c mode r s l
    Passage b r.month l o.2 o.1.entries o.1.warnings := by
  cases mode with
  | forced => exact .reported l rfl
  | threshold =>
    obtain ⟨hsnap, hpassage⟩ := passage_ordinaryOutcome (b := b) (c := c) hs hm l
    refine passage_withEscalation ?_ ?_ hpassage
    · rw [hsnap, hs]
    · rw [hsnap, hm]

theorem passage_decideAll (mode : RunMode) {work : List (OvertimeRecord × Snapshot)}
    (hw : WorkOf month work) (l : Ledger σ) :
    let d := decideAll b c mode work l
    Passage b month l d.2 (d.1.flatMap (·.entries)) (d.1.flatMap (·.warnings)) := by
  induction work generalizing l with
  | nil => exact .idle l
  | cons w work ih =>
    obtain rfl : w.1.month = month := hw.month _ (List.mem_cons_self ..)
    obtain ⟨hs, hm⟩ := hw.subject _ (List.mem_cons_self ..)
    exact (passage_outcome mode hs hm l).trans (ih hw.tail _)

/-! ## What is heard of the backend -/

/-- On the way from one ledger to another this happened at the backend, and the ledger warns of
those times that it could not load the month. It tries that once, if it has not kept the month
yet. -/
structure Heard (b : Backend σ) (month : Month) (l l' : Ledger σ) (events : List BackendEvent) :
    Prop where
  happened : b.Happens l.store events l'.store
  warned : l'.warnings = l.warnings ++ events.filterMap BackendEvent.readWarning?
  keeps : (l.cached? month).isSome = true → (l'.cached? month).isSome = true
  loads : events.filterMap BackendEvent.loaded? =
    if (l.cached? month).isSome = false ∧ (l'.cached? month).isSome = true then [month] else []

section

variable {l l' l'' : Ledger σ} {events events' : List BackendEvent}

theorem Heard.refl (b : Backend σ) (month : Month) (l : Ledger σ) : Heard b month l l [] :=
  ⟨b.happens_nil l.store, (List.append_nil _).symm, id, by simp⟩

theorem Heard.trans (h : Heard b month l l' events) (h' : Heard b month l' l'' events') :
    Heard b month l l'' (events ++ events') := by
  refine ⟨h.happened.append h'.happened, ?_, fun hc => h'.keeps (h.keeps hc), ?_⟩
  · rw [h'.warned, h.warned, List.filterMap_append, List.append_assoc]
  · have hkeeps := h.keeps
    have hkeeps' := h'.keeps
    rw [List.filterMap_append, h.loads, h'.loads]
    -- a month that is kept stays kept, so at most one of the two ways was the one to load it
    cases hc : (l.cached? month).isSome <;> cases hc' : (l'.cached? month).isSome <;>
      cases hc'' : (l''.cached? month).isSome <;> simp_all

theorem heard_loaded (b : Backend σ) (month : Month) (l : Ledger σ) :
    ∃ events, Heard b month l (l.loaded b month) events := by
  cases hc : l.cached? month with
  | some ms =>
    rw [Ledger.loaded_of_cached hc]
    exact ⟨[], .refl b month l⟩
  | none =>
    have hcached : ((l.loaded b month).cached? month).isSome = true := by
      rw [Ledger.cached?_loaded]
      rfl
    refine ⟨[.load month (b.load month l.store).1], ?_, ?_, fun _ => hcached, ?_⟩
    · rw [Ledger.store_loaded, hc]
      exact b.happens_load month l.store
    · unfold Ledger.loaded
      simp only [hc]
      rcases b.load month l.store with ⟨es | f, s⟩
      · simp [BackendEvent.readWarning?]
      · simp [BackendEvent.readWarning?]
    · rw [if_pos ⟨by rw [hc]; rfl, hcached⟩]
      rfl

/-- The month was to be loaded just if it is kept now and was not before. -/
theorem Heard.tried_iff (h : Heard b month l l' events) :
    (∃ answer, .load month answer ∈ events) ↔
      l.cached? month = none ∧ l'.cached? month ≠ none := by
  have hmem : (∃ answer, .load month answer ∈ events) ↔
      month ∈ events.filterMap BackendEvent.loaded? := by
    rw [List.mem_filterMap]
    constructor
    · rintro ⟨answer, hmem⟩
      exact ⟨_, hmem, rfl⟩
    · rintro ⟨v, hv, hm⟩
      cases v with
      | load m answer =>
        obtain rfl : m = month := Option.some.inj hm
        exact ⟨answer, hv⟩
      | upsert => exact nomatch hm
      | purge => exact nomatch hm
  rw [hmem, h.loads, ← Option.not_isSome_iff_eq_none, ← Option.isSome_iff_ne_none,
    Bool.not_eq_true]
  split
  · rename_i hloaded
    exact iff_of_true (List.mem_singleton_self _) hloaded
  · rename_i hloaded
    exact iff_of_false List.not_mem_nil hloaded

theorem Heard.length_loads_le (h : Heard b month l l' events) :
    (events.filterMap BackendEvent.loaded?).length ≤ 1 := by
  rw [h.loads]
  split
  · exact Nat.le_refl 1
  · exact Nat.zero_le 1

theorem Heard.length_reads_le (h : Heard b month l l' events) :
    (events.filterMap BackendEvent.readWarning?).length ≤ 1 := by
  refine Nat.le_trans ?_ h.length_loads_le
  rw [List.length_filterMap_eq_countP, List.length_filterMap_eq_countP]
  exact List.countP_mono_left fun _ _ => BackendEvent.isSome_loaded?

/-- No other month is loaded. -/
theorem Heard.month_of_load (h : Heard b month l l' events) {m : Month}
    {answer : Except Failure (List Mark)} (hm : .load m answer ∈ events) : m = month := by
  have hloaded : m ∈ events.filterMap BackendEvent.loaded? :=
    List.mem_filterMap.mpr ⟨_, hm, rfl⟩
  rw [h.loads] at hloaded
  split at hloaded
  · exact List.mem_singleton.mp hloaded
  · exact nomatch hloaded

theorem Heard.mem_reads_iff (h : Heard b month l l' events) {w : Warning} :
    w ∈ events.filterMap BackendEvent.readWarning? ↔
      ∃ f, .load month (.error f) ∈ events ∧ w = .stateReadFailed month f.message := by
  rw [List.mem_filterMap]
  constructor
  · rintro ⟨v, hv, hw⟩
    obtain ⟨m, f, rfl, rfl⟩ := BackendEvent.readWarning?_eq_some.mp hw
    obtain rfl := h.month_of_load hv
    exact ⟨f, hv, rfl⟩
  · rintro ⟨f, hf, rfl⟩
    exact ⟨_, hf, rfl⟩

/-- A mark that could not be written was to be recorded. -/
theorem heard_markNotified (b : Backend σ) (employee : String) (month : Month) (k : Marker)
    (l : Ledger σ) :
    let m := l.markNotified b employee month k
    ∃ events, Heard b month l m.2 events ∧
      ∀ f, m.1 = .error f → .upsert ⟨employee, month, k⟩ (.error f) ∈ events := by
  intro m
  obtain ⟨events, hloaded⟩ := heard_loaded b month l
  by_cases hsent : (employee, k) ∈ l.standing b month
  · have hm : m = (.ok (), l.loaded b month) := Ledger.markNotified_of_mem hsent
    rw [hm]
    exact ⟨events, hloaded, nofun⟩
  · let u := b.upsert ⟨employee, month, k⟩ (l.loaded b month).store
    have hm := Ledger.markNotified_of_not_mem hsent
    have hwritten : Heard b month (l.loaded b month) m.2 [.upsert ⟨employee, month, k⟩ u.1] := by
      have hbefore : ((l.loaded b month).cached? month).isSome = true := by
        rw [Ledger.cached?_loaded]
        rfl
      have hafter : (m.2.cached? month).isSome = true := by
        rw [Ledger.cached?_markNotified]
        rfl
      refine ⟨?_, ?_, fun _ => hafter, ?_⟩
      · simp only [m, hm]
        exact b.happens_upsert _ _
      · simp only [m, hm]
        exact (List.append_nil _).symm
      · rw [if_neg fun h => by rw [hbefore] at h; exact nomatch h.1]
        rfl
    refine ⟨_, hloaded.trans hwritten, fun f hf => List.mem_append_right _ ?_⟩
    simp only [m, hm] at hf
    rw [← hf]
    exact List.mem_singleton_self _

/-- Along a run, what went wrong is told: in the ledger if the month could not be loaded, and with
each entry if its mark could not be written. -/
theorem Passage.heard (h : Passage b month l l' es ws) :
    ∃ events told, Heard b month l l' events ∧ List.Forall₂ (Told events) es told ∧
      ws = told.flatten := by
  induction h with
  | idle l => exact ⟨[], [], .refl b month l, .nil, rfl⟩
  | looked l =>
    obtain ⟨events, hheard⟩ := heard_loaded b month l
    exact ⟨events, [], hheard, .nil, rfl⟩
  | reported l he =>
    exact ⟨[], _, .refl b month l, .cons (.written (gapTold_gapWarnings _) he) .nil, by simp⟩
  | @sent l r k e hr hk he =>
    subst hr
    obtain ⟨hmarker, hemployee, hmonth⟩ : e.marker? = some k ∧
        e.snapshot.employee = r.employee ∧ e.snapshot.month = r.month :=
      PlanEntry.mark?_eq_some.mp hk
    obtain ⟨events, hheard, hfailed⟩ := heard_markNotified b r.employee r.month k l
    -- whether the entry says that it was written is the answer to the mark
    simp only [marked_eq he]
    refine ⟨events, [_], hheard, .cons ?_ .nil, List.flatten_singleton.symm⟩
    generalize (l.markNotified b r.employee r.month k).1 = answer at hfailed ⊢
    cases answer with
    | ok =>
      rw [writeFailures, List.append_nil]
      exact .written (gapTold_gapWarnings _) rfl
    | error f =>
      rw [writeFailures, ← hemployee]
      refine .unwritten (gapTold_gapWarnings _) rfl hmarker ?_
      rw [hemployee, hmonth]
      exact hfailed f rfl
  | trans _ _ ih ih₁ =>
    obtain ⟨events, told, hheard, htold, rfl⟩ := ih
    obtain ⟨events', told', hheard', htold', rfl⟩ := ih₁
    refine ⟨events ++ events', told ++ told', hheard.trans hheard', List.rel_append ?_ ?_,
      List.flatten_append.symm⟩
    · exact htold.imp fun _ _ => Told.mono (List.subset_append_left _ _)
    · exact htold'.imp fun _ _ => Told.mono (List.subset_append_right _ _)

end

/-! ## Reports -/

variable {runId : String} {now : Moment} {decision : RunDecision} {rows : List RawRow}
  {l l' : Ledger σ} {rep : Report}

/-- **Warnings and flags agree.** A report warns, in this order, of what the ledger had to hand out,
of the month if the run tried to load it and failed, of each row that does not count, and of each
entry what its flags say; then the ledger has nothing to hand out. An entry has a gap just if it has
no recipient, which is never so of direct notice, nor where someone is listed for every department.
What happened at a backend that keeps a record is what was put on it, by `Happens.record`. -/
theorem run_warns (h : run b c runId now decision rows l = (.ok rep, l')) :
    ∃ events reads told, b.Happens l.store events l'.store ∧
      rep.warnings = l.warnings ++ reads ++
        (((placed rows).filter fun p => ¬p.2.Counts p.1).map fun p => p.2.skip now.toMonth) ++
          told.flatten ∧
      reads.length ≤ 1 ∧
      (∀ w, w ∈ reads ↔ ∃ f, .load now.toMonth (.error f) ∈ events ∧
        w = .stateReadFailed now.toMonth f.message) ∧
      ((∃ answer, .load now.toMonth answer ∈ events) ↔
        l.cached? now.toMonth = none ∧ l'.cached? now.toMonth ≠ none) ∧
      List.Forall₂ (Told events) rep.entries told ∧
      (∀ e ∈ rep.entries,
        (e.recipientGap = true ↔
          (∀ x, x ∉ e.recipients.managers) ∧ e.recipients.employee = none) ∧
        (e.kind = .selfEscalation → e.recipientGap = false) ∧
        ((∃ given ∈ (c.recipients.find? everyDepartment).getD [], Text.trim given ≠ "") →
          e.recipientGap = false)) ∧
      l'.warnings = [] := by
  have hentries : ∀ e ∈ rep.entries, ∃ r s, Addressed c r s e := by
    obtain ⟨work, -, haddressed⟩ := addressed_of_report h
    intro e he
    obtain ⟨w, -, hw⟩ := haddressed e he
    exact ⟨w.1, w.2, hw⟩
  obtain ⟨work, hev, rfl, rfl⟩ := run_eq_ok h
  obtain ⟨events, told, hheard, htold, hwarnings⟩ :=
    (passage_decideAll (b := b) (c := c) decision.mode hev.workOf l).heard
  refine ⟨events, events.filterMap BackendEvent.readWarning?, told, hheard.happened, ?_,
    hheard.length_reads_le, fun w => hheard.mem_reads_iff, hheard.tried_iff, htold,
    fun e he => ?_, rfl⟩
  · simp only [report, Ledger.drain, hheard.warned, hwarnings, (intake_eq _ _).2]
  · obtain ⟨r, s, haddressed⟩ := hentries e he
    exact ⟨haddressed.gap_iff, haddressed.gap_of_notice, haddressed.gap_of_listed⟩

/-- The trial run about two employees, where nobody is listed to receive anything. -/
private def unrouted : RunRequest :=
  let q := RunRequest.assorted
  { q with config := { q.config with
      recipients := TextMap.empty
      selfNotify := { q.config.selfNotify with allowlist := TextSet.empty } } }

/-- A backend that neither reads nor writes, under a ledger that has a warning to hand out. -/
private def unwell : Ledger (Recorded MemoryMarks) :=
  { Ledger.fresh ⟨{ MemoryMarks.empty with failRead := true, failWrite := true }, []⟩ with
    warnings := [.stateReadFailed Moment.trial.toMonth.previous "no such table"] }

/-- The employee at the ceiling gets an ordinary entry without a recipient and then direct notice,
and neither mark is written. -/
theorem run_warns_memory :
    ∃ rep l' told, unrouted.on Backend.memory.recorded unwell = (.ok rep, l') ∧
      rep.entries.map (fun e => (e.kind, e.recipientGap, e.statePersisted)) =
        [(.ordinary, true, false), (.selfEscalation, false, false)] ∧
      List.Forall₂ (Told l'.store.events) rep.entries told ∧
      told.flatten = [.recipientGap "1001" "300",
        .stateWriteFailed "1001" (.level .p100) "Corrupt notification state: disk full",
        .stateWriteFailed "1001" .selfEscalation "Corrupt notification state: disk full"] ∧
      l'.warnings = [] := by
  obtain ⟨rep, l', h, hrun⟩ : ∃ rep l', unrouted.on Backend.memory.recorded unwell = (.ok rep, l') ∧
      (rep.warnings.take 2, rep.warnings.drop 6,
        rep.entries.map fun e => (e.kind, e.recipientGap, e.statePersisted)) =
      ([.stateReadFailed Moment.trial.toMonth.previous "no such table",
          .stateReadFailed Moment.trial.toMonth "Corrupt notification state: garbage"],
        [.recipientGap "1001" "300",
          .stateWriteFailed "1001" (.level .p100) "Corrupt notification state: disk full",
          .stateWriteFailed "1001" .selfEscalation "Corrupt notification state: disk full"],
        [(.ordinary, true, false), (.selfEscalation, false, false)]) :=
    RunRequest.exists_of_map_on (by decide +kernel)
  obtain ⟨events, reads, told, hevents, hwarnings, hreads, -, -, htold, -, hdrained⟩ := run_warns h
  have hskips : (((placed unrouted.rows).filter fun p => ¬p.2.Counts p.1).map fun p =>
      p.2.skip unrouted.now.toMonth) = [
        .recordSkipped " 1001" "missing department code",
        .recordSkipped "1001" "duplicate row",
        .recordSkipped "1002" "no overtime figure for 2026-10",
        .recordSkipped "1002" "invalid overtime minutes 4294967296"] := by
    decide +kernel
  simp only [hwarnings, hskips, Prod.mk.injEq] at hrun
  obtain ⟨hfirst, hrest, hflags⟩ := hrun
  have hpending : unwell.warnings.length = 1 := rfl
  have hread : reads.length = 1 := by
    cases reads with
    | nil => simp [unwell] at hfirst
    | cons w reads => simpa using hreads
  refine ⟨rep, l', told, h, hflags, ?_, ?_, hdrained⟩
  · rw [hevents.record]
    exact htold
  · rw [List.drop_left' (by simp [hpending, hread])] at hrest
    exact hrest

end Planner

end OvertimeNotice
