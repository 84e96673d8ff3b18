import OvertimeNotice.Proofs.Ledger.Keeping
import OvertimeNotice.Proofs.Plan.News

/-!
# Once for a ledger

A ledger keeps what it was told to mark even if that cannot be written, so over one ledger nothing
is sent twice in a month, whatever becomes of the calls to its backend.

* `Activity`, `performAll`: runs over one ledger, with other calls to it in between.
* `Sends`: what is sent on the way from one ledger to another; `sends_perform` for one activity.
* `performAll_once`: each notice is reported once.
-/

namespace OvertimeNotice

namespace Planner

variable {σ : Type} {b : Backend σ} {c : Config} {mode : RunMode} {month : Month}
  {r : OvertimeRecord} {s : Snapshot} {l l' l'' : Ledger σ} {es es' : List PlanEntry}

/-! ## A run loses no mark -/

theorem keeps_marked (k : Marker) (e : PlanEntry) (l : Ledger σ) :
    l.Keeps month (marked b r k e l).2 := by
  rw [marked_ledger]
  exact Ledger.keeps_markNotified b r.employee r.month k l

theorem keeps_ordinaryOutcome (l : Ledger σ) : l.Keeps month (ordinaryOutcome b c r s l).2 := by
  unfold ordinaryOutcome
  dsimp only
  split
  · split
    · exact Ledger.keeps_hasNotified ‹_›
    · exact (Ledger.keeps_hasNotified ‹_›).trans (keeps_marked _ _ _)
  · exact .refl l

theorem keeps_withEscalation (o : Outcome) (l : Ledger σ) :
    l.Keeps month (withEscalation b c r (o, l)).2 := by
  unfold withEscalation
  split
  · exact .refl l
  · split
    · exact Ledger.keeps_hasNotified ‹_›
    · exact (Ledger.keeps_hasNotified ‹_›).trans (keeps_marked _ _ _)

theorem keeps_outcome (l : Ledger σ) : l.Keeps month (outcome b c mode r s l).2 := by
  cases mode with
  | forced => exact .refl l
  | threshold => exact (keeps_ordinaryOutcome l).trans (keeps_withEscalation _ _)

theorem keeps_outcomes (ws : List (OvertimeRecord × UInt32)) (l : Ledger σ) :
    l.Keeps month (outcomes b c mode ws l).2 := by
  induction ws generalizing l with
  | nil => exact .refl l
  | cons w ws ih =>
    rw [outcomes]
    split
    · exact .refl l
    · exact (keeps_outcome l).trans (ih _)

/-- Even a run that is broken off keeps the marks there were. -/
theorem keeps_on (q : RunRequest) (l : Ledger σ) : l.Keeps month (q.on b l).2 := by
  rw [RunRequest.on, run]
  cases withCeilings q.config (intake q.now.toMonth q.rows).records with
  | error f => exact .refl l
  | ok work =>
    have hkeeps : l.Keeps month (outcomes b q.config q.decision.mode work l).2 :=
      keeps_outcomes work l
    dsimp only
    split
    · rename_i h
      rwa [h] at hkeeps
    · rename_i h
      rw [h] at hkeeps
      exact hkeeps.trans (Ledger.keeps_of_cached rfl)

/-! ## What is sent on the way -/

/-- On the way from `l` to `l'` the entries `es` were sent: their marks are of the month, each is
new, and they are kept with those there were. -/
structure Sends (month : Month) (l : Ledger σ) (es : List PlanEntry) (l' : Ledger σ) : Prop where
  keeps : l.Keeps month l'
  nodup : (es.filterMap PlanEntry.mark?).Nodup
  new : ∀ x ∈ es.filterMap PlanEntry.mark?,
    x.month = month ∧ (x.employee, x.marker) ∉ l.marks month
  kept : ∀ x ∈ es.filterMap PlanEntry.mark?, (x.employee, x.marker) ∈ l'.marks month

theorem Sends.of_keeps (h : l.Keeps month l') : Sends month l [] l' :=
  ⟨h, List.nodup_nil, by simp, by simp⟩

theorem Sends.trans (h : Sends month l es l') (h' : Sends month l' es' l'') :
    Sends month l (es ++ es') l'' := by
  refine ⟨h.keeps.trans h'.keeps, ?_, fun x hx => ?_, fun x hx => ?_⟩
  · rw [List.filterMap_append]
    refine List.nodup_append.mpr ⟨h.nodup, h'.nodup, fun x hx y hy hxy => ?_⟩
    subst hxy
    exact (h'.new x hy).2 (h.kept x hx)
  · rw [List.filterMap_append, List.mem_append] at hx
    rcases hx with hx | hx
    · exact h.new x hx
    · obtain ⟨hmonth, hnot⟩ := h'.new x hx
      exact ⟨hmonth, fun hin => hnot (h.keeps _ hin)⟩
  · rw [List.filterMap_append, List.mem_append] at hx
    rcases hx with hx | hx
    · exact h'.keeps _ (h.kept x hx)
    · exact h'.kept x hx

/-- Nothing is sent unless the ledger is asked. -/
theorem Steps.eq_nil {asked : Prop} (h : Steps b month l l' es asked) (hn : ¬asked) : es = [] := by
  induction h with
  | idle => rfl
  | looked h => exact absurd h hn
  | sent h => exact absurd h hn
  | trans _ _ ih ih₁ =>
    rw [ih fun h => hn (.inl h), ih₁ fun h => hn (.inr h)]
    rfl

theorem Steps.kept {asked : Prop} (h : Steps b month l l' es asked) :
    ∀ x ∈ es.filterMap PlanEntry.mark?, (x.employee, x.marker) ∈ l'.marks month := by
  intro x hx
  have ha : asked := by
    by_contra hn
    rw [h.eq_nil hn] at hx
    exact nomatch hx
  have hm := (h.mark_new x hx).1
  refine Ledger.mem_marks_of_mem_standing (b := b) (h.cached ha)
    ((h.standing _).mpr (.inr ?_))
  rw [← hm]
  exact hx

/-- A run that gives a report sends its entries. -/
theorem sends_of_report {q : RunRequest} {rep : Report} (h : q.on b l = (.ok rep, l')) :
    Sends q.now.toMonth l rep.entries l' := by
  have hkeeps : l.Keeps q.now.toMonth (q.on b l).2 := keeps_on q l
  rw [h] at hkeeps
  obtain ⟨es, asked, l₁, hsteps, rfl, hmarks⟩ := steps_of_report h
  refine ⟨hkeeps, ?_, ?_, ?_⟩
  · rw [hmarks]
    exact hsteps.nodup_marks
  · intro x hx
    obtain ⟨hmonth, hnot⟩ := hsteps.mark_new x (hmarks ▸ hx)
    exact ⟨hmonth, fun hin => hnot (Ledger.mem_standing_of_mem_marks hin)⟩
  · intro x hx
    exact hsteps.kept x (hmarks ▸ hx)

end Planner

/-! ## Activities -/

/-- A run, or a call to the ledger that stands between runs. -/
inductive Activity where
  | run (request : RunRequest)
  | call (call : LedgerCall)

namespace Activity

variable {σ : Type}

/-- Runs are of the month, and no call asks to forget it. -/
def Within (month : Month) : Activity → Prop
  | run q => q.now.toMonth = month
  | call c => c.Spares month

instance (month : Month) (a : Activity) : Decidable (a.Within month) :=
  match a with
  | run q => inferInstanceAs (Decidable (q.now.toMonth = month))
  | call c => inferInstanceAs (Decidable (c.Spares month))

/-- The report of a run, if it gives one, and the ledger after the activity. -/
def perform (b : Backend σ) (l : Ledger σ) : Activity → Option Report × Ledger σ
  | run q => (q.on b l).map Except.toOption id
  | call c => (none, (l.perform b c).2)

/-- The reports given by activities over one ledger, and the ledger after them. -/
def performAll (b : Backend σ) : List Activity → Ledger σ → List Report × Ledger σ
  | [], l => ([], l)
  | a :: as, l =>
    let r := a.perform b l
    let more := performAll b as r.2
    (r.1.toList ++ more.1, more.2)

variable {b : Backend σ} {month : Month}

theorem sends_perform {a : Activity} (h : a.Within month) (l : Ledger σ) :
    Planner.Sends month l ((a.perform b l).1.toList.flatMap (·.entries)) (a.perform b l).2 := by
  cases a with
  | call c => exact .of_keeps (Ledger.keeps_perform b h l)
  | run q =>
    obtain rfl : q.now.toMonth = month := h
    rw [perform]
    cases hq : q.on b l with
    | mk answer l' =>
      cases answer with
      | error f =>
        have hkeeps : l.Keeps q.now.toMonth (q.on b l).2 := Planner.keeps_on q l
        rw [hq] at hkeeps
        exact .of_keeps hkeeps
      | ok rep =>
        have hsends := Planner.sends_of_report hq
        rwa [← List.append_nil rep.entries] at hsends

theorem sends_performAll {as : List Activity} (h : ∀ a ∈ as, a.Within month) (l : Ledger σ) :
    Planner.Sends month l ((performAll b as l).1.flatMap (·.entries)) (performAll b as l).2 := by
  induction as generalizing l with
  | nil => exact .of_keeps (.refl l)
  | cons a as ih =>
    obtain ⟨ha, has⟩ := List.forall_mem_cons.mp h
    rw [performAll, List.flatMap_append]
    exact (sends_perform ha l).trans (ih has _)

/-- **At most once for a ledger.** Over runs in one month and whatever else is asked of the ledger
in between, no step is reported twice of an employee, and nobody is noticed directly twice. -/
theorem performAll_once (b : Backend σ) {as : List Activity} (h : ∀ a ∈ as, a.Within month)
    (l : Ledger σ) :
    let sent := (performAll b as l).1.flatMap (·.entries)
    (∀ employee severity, sent.countP (fun e => e.kind = .ordinary ∧
      e.snapshot.employee = employee ∧ e.snapshot.severity = severity) ≤ 1) ∧
      ∀ employee, sent.countP (fun e => e.kind = .selfEscalation ∧
        e.snapshot.employee = employee) ≤ 1 := by
  intro sent
  obtain ⟨-, hnodup, hnew, -⟩ := sends_performAll (b := b) h l
  have hmonth : ∀ e ∈ sent, ∀ k, e.marker? = some k → e.snapshot.month = month := by
    intro e he k hk
    have hmark : e.mark? = some ⟨e.snapshot.employee, e.snapshot.month, k⟩ := by
      rw [PlanEntry.mark?, hk]
      rfl
    exact (hnew _ (List.mem_filterMap.mpr ⟨e, he, hmark⟩)).1
  refine ⟨fun employee severity => ?_, fun employee => ?_⟩
  · refine PlanEntry.countP_le_one (x := ⟨employee, month, .level severity⟩) hnodup ?_
    rintro e he ⟨hkind, rfl, rfl⟩
    have hk : e.marker? = some (.level e.snapshot.severity) := by rw [PlanEntry.marker?, hkind]
    rw [PlanEntry.mark?, hk, Option.map_some, hmonth e he _ hk]
  · refine PlanEntry.countP_le_one (x := ⟨employee, month, .selfEscalation⟩) hnodup ?_
    rintro e he ⟨hkind, rfl⟩
    have hk : e.marker? = some .selfEscalation := by rw [PlanEntry.marker?, hkind]
    rw [PlanEntry.mark?, hk, Option.map_some, hmonth e he _ hk]

/-- A run under one ceiling and others under another, the last of which is broken off. -/
private def mixed : List Activity :=
  let first := RunRequest.trial 600 540 .threshold
  let month := first.now.toMonth
  [.run first, .call (.reset month), .run (.trial 500 540 .threshold),
    .call (.has ⟨"1001", month, .level .p100⟩), .run (.trial 500 540 (.forced .forceAlways)),
    .run first, .run (.trial 0 540 .threshold)]

/-- No call to the backend succeeds. -/
theorem performAll_once_memory :
    let month := (RunRequest.trial 600 540 .threshold).now.toMonth
    let reports := (performAll Backend.memory mixed (Ledger.fresh ⟨[], true, true, true⟩)).1
    (∀ a ∈ mixed, a.Within month) ∧
      reports.map (fun r => r.entries.map (·.kind)) =
        [[.ordinary], [.ordinary, .selfEscalation], [.forced], []] ∧
      ∀ employee, (reports.flatMap (·.entries)).countP (fun e => e.kind = .selfEscalation ∧
        e.snapshot.employee = employee) ≤ 1 := by
  intro month reports
  have hwithin : ∀ a ∈ mixed, a.Within month := by decide +kernel
  exact ⟨hwithin, by decide +kernel, (performAll_once Backend.memory hwithin _).2⟩

end Activity

end OvertimeNotice
