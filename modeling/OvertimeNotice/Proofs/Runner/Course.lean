import OvertimeNotice.Proofs.Runner.Safekeeping

/-!
# A course of invocations

Invocations follow each other on one tree of files, month after month, and between them others
change what they like but the stored state. What is remembered is then what was planned, so nothing
is planned twice, and nothing is left out that was not planned before. Every line that is printed is
that of an entry that was planned, and every entry has its line, unless standard output refused it.

* `Runner.Course`: the courses that invocations may take.
* `Runner.Remembers`: the invariant, with `Remembers.changed` and `Remembers.invoked` for the steps.
* `Runner.course_notices`: each notice is printed once.
-/

namespace OvertimeNotice

/-- The entry tells an employee of a step in a month. -/
def PlanEntry.TellsStep (employee : String) (month : Month) (severity : Severity)
    (e : PlanEntry) : Prop :=
  e.kind = .ordinary ∧ e.snapshot.employee = employee ∧ e.snapshot.month = month ∧
    e.snapshot.severity = severity

/-- The entry goes to an employee directly in a month. -/
def PlanEntry.TellsDirectly (employee : String) (month : Month) (e : PlanEntry) : Prop :=
  e.kind = .selfEscalation ∧ e.snapshot.employee = employee ∧ e.snapshot.month = month

namespace PlanEntry

variable {e : PlanEntry} {employee : String} {month : Month} {severity : Severity}

instance : Decidable (TellsStep employee month severity e) := instDecidableAnd

instance : Decidable (TellsDirectly employee month e) := instDecidableAnd

theorem tellsStep_iff :
    TellsStep employee month severity e ↔ e.mark? = some ⟨employee, month, .level severity⟩ := by
  unfold TellsStep mark? marker?
  cases e.kind <;> simp

theorem tellsDirectly_iff :
    TellsDirectly employee month e ↔ e.mark? = some ⟨employee, month, .selfEscalation⟩ := by
  unfold TellsDirectly mark? marker?
  cases e.kind <;> simp

end PlanEntry

namespace Runner

open Planner

/-- The lines that were printed, in order. -/
def printed (log : List (Moment × Invocation)) : List String := log.flatMap fun p => p.2.stdout

/-- The entries that were planned, in order. -/
def planned (log : List (Moment × Invocation)) : List PlanEntry := log.flatMap fun p => p.2.entries

/-- The marks of the entries that were planned. -/
def plannedMarks (log : List (Moment × Invocation)) : List Mark :=
  (planned log).filterMap PlanEntry.mark?

/-- The courses that invocations may take: the moment and the end of each so far, and the files
there are. The settings are the same but for the moment; months do not go back, and the marks of all
that is planned can be written. The streams of each invocation take what they like. -/
inductive Course (s : Settings) : List (Moment × Invocation) → Tree → Prop
  | start {t : Tree} (h : Unused s t) : Course s [] t
  | changed {log : List (Moment × Invocation)} {t u : Tree} (h : Course s log t)
      (hagree : Tree.Agree (fun q => s.DatabaseTouches q ∨ s.statePath.Touches q) t u) :
      Course s log u
  | invoked {log : List (Moment × Invocation)} {t u : Tree} {given : Option String}
      {clock now : Moment} {runId : String} {o : Console} {i : Invocation} (h : Course s log t)
      (hnow : moment? { s with now := given } clock = some now) (hm : now.toMonth.IsCommon)
      (hlater : ∀ p ∈ log, p.1.toMonth ≤ now.toMonth)
      (hrun : invokeTo o { s with now := given } clock runId t = (i, u))
      (hkept : ∀ e ∈ i.entries, e.statePersisted = true) : Course s (log ++ [(now, i)]) u

variable {s : Settings} {log : List (Moment × Invocation)} {t u : Tree} {now : Moment}
  {i : Invocation} {month : Month}

theorem planned_concat (log : List (Moment × Invocation)) (now : Moment) (i : Invocation) :
    planned (log ++ [(now, i)]) = planned log ++ i.entries := by
  simp [planned]

theorem plannedMarks_concat (log : List (Moment × Invocation)) (now : Moment) (i : Invocation) :
    plannedMarks (log ++ [(now, i)]) = plannedMarks log ++ i.entries.filterMap PlanEntry.mark? := by
  rw [plannedMarks, planned_concat, List.filterMap_append]
  rfl

theorem mem_plannedMarks {x : Mark} :
    x ∈ plannedMarks log ↔ ∃ e ∈ planned log, e.mark? = some x :=
  List.mem_filterMap

/-- The lines are those of entries that were planned. -/
theorem printed_eq (log : List (Moment × Invocation)) : ∃ es : List PlanEntry,
    es.Sublist (planned log) ∧ printed log = es.map fun e => e.toJson.compact := by
  induction log with
  | nil => exact ⟨[], .slnil, rfl⟩
  | cons p log ih =>
    obtain ⟨es, hsub, hlines⟩ := ih
    refine ⟨p.2.printed ++ es, p.2.printed_sublist.append hsub, ?_⟩
    rw [List.map_append, ← hlines, ← p.2.stdout_eq]
    rfl

/-- A run on steps newly reached leaves out no step that was not planned before. -/
def Covers (before : List PlanEntry) (i : Invocation) : Prop :=
  ∀ rep, i.report? = some rep → rep.decision.mode = .threshold → ∀ p ∈ rep.evaluated,
    p.severity.isNotifiable = true →
      ∃ e ∈ before ++ rep.entries, e.TellsStep p.employee p.month p.severity

/-- The marks of what was planned are all different, and they are what is remembered from the last
month on. -/
structure Remembers (s : Settings) (log : List (Moment × Invocation)) (t : Tree) : Prop where
  rests : ∃ d, t.Rests s.home d
  nodup : (plannedMarks log).Nodup
  marks : ∀ m, m.IsCommon → (∀ p ∈ log, p.1.toMonth ≤ m) →
    ∀ x, x ∈ readMarks (remembered s m t) ↔ x ∈ plannedMarks log ∧ x.month = m
  legible : ∀ e ∈ planned log, e.Legible
  covers : ∀ before now i after, log = before ++ (now, i) :: after → Covers (planned before) i

namespace Remembers

theorem unused (ha : s.Apart) (h : Unused s t) : Remembers s [] t := by
  refine ⟨⟨_, h.rests⟩, List.nodup_nil, fun m _ _ x => ?_, List.forall_mem_nil _,
    fun before now i after hlog => ?_⟩
  · rw [h.readMarks_remembered ha]
    simp [plannedMarks, planned]
  · simp at hlog

theorem changed (ha : s.Apart) (h : Remembers s log t)
    (hagree : Tree.Agree (fun q => s.DatabaseTouches q ∨ s.statePath.Touches q) t u) :
    Remembers s log u := by
  obtain ⟨d, hr⟩ := h.rests
  have hp := ha.statePath_ne (home_ne_of_rests hr)
  refine ⟨⟨d, rests_congr hr (hagree.mono fun q => .inl)⟩, h.nodup, fun m hm hlast x => ?_,
    h.legible, h.covers⟩
  rw [readMarks_remembered_congr ha hr hagree hp hm, h.marks m hm hlast]

/-- The months of a longer course, its last one included. -/
theorem last_le (hlater : ∀ p ∈ log ++ [(now, i)], p.1.toMonth ≤ month) :
    (∀ p ∈ log, p.1.toMonth ≤ month) ∧ now.toMonth ≤ month :=
  ⟨fun p hp => hlater p (List.mem_append_left _ hp), hlater (now, i) (by simp)⟩

theorem legible_concat (h : Remembers s log t) (hlast : ∀ e ∈ i.entries, e.Legible) :
    ∀ e ∈ planned (log ++ [(now, i)]), e.Legible := by
  rw [planned_concat]
  exact List.forall_mem_append.mpr ⟨h.legible, hlast⟩

theorem covers_concat (h : Remembers s log t) (hlast : Covers (planned log) i) :
    ∀ before now' i' after, log ++ [(now, i)] = before ++ (now', i') :: after →
      Covers (planned before) i' := by
  intro before now' i' after hlog
  rcases List.eq_nil_or_concat after with rfl | ⟨init, x, rfl⟩
  · obtain ⟨rfl, hx⟩ := List.append_inj' hlog rfl
    obtain ⟨-, rfl⟩ := Prod.mk.inj (List.cons_eq_cons.mp hx).1
    exact hlast
  · rw [List.concat_eq_append, ← List.cons_append, ← List.append_assoc] at hlog
    exact h.covers _ _ _ _ (List.append_inj' hlog rfl).1

/-- An invocation that plans nothing changes nothing. -/
theorem quiet (h : Remembers s log t) (hrests : ∃ d, u.Rests s.home d) (hi : i.report? = none)
    (hsame : ∀ m, m.IsCommon → now.toMonth ≤ m →
      readMarks (remembered s m u) = readMarks (remembered s m t)) :
    Remembers s (log ++ [(now, i)]) u := by
  have hnone : i.entries = [] := by rw [Invocation.entries, hi]; rfl
  have hmarks : plannedMarks (log ++ [(now, i)]) = plannedMarks log := by
    rw [plannedMarks_concat, hnone, List.filterMap_nil, List.append_nil]
  have hcovers : Covers (planned log) i := by
    intro rep hrep
    simp [hi] at hrep
  refine ⟨hrests, hmarks ▸ h.nodup, fun m hm hlast x => ?_,
    h.legible_concat (hnone ▸ List.forall_mem_nil _), h.covers_concat hcovers⟩
  obtain ⟨hbefore, hnow⟩ := last_le hlast
  rw [hmarks, hsame m hm hnow, h.marks m hm hbefore]

theorem covers_of_news {rep : Report} (h : Remembers s log t) (hm : now.toMonth.IsCommon)
    (hlater : ∀ p ∈ log, p.1.toMonth ≤ now.toMonth) (hi : i.report? = some rep)
    (hnews : News now.toMonth (readMarks (remembered s now.toMonth t)) rep) :
    Covers (planned log) i := by
  intro rep' hrep hmode p hp hn
  obtain rfl := Option.some.inj (hi.symm.trans hrep)
  obtain ⟨hmonth, ⟨e, he, hkind, rfl⟩ | hheld⟩ := hnews.covers hmode p hp hn
  · exact ⟨e, List.mem_append_right _ he, hkind, rfl, rfl, rfl⟩
  · obtain ⟨hplanned, -⟩ := (h.marks _ hm hlater _).mp hheld
    obtain ⟨e, he, hmark⟩ := mem_plannedMarks.mp hplanned
    exact ⟨e, List.mem_append_left _ he, PlanEntry.tellsStep_iff.mpr (by rw [hmark, hmonth])⟩

/-- An invocation plans marks that are new, and they are remembered besides. -/
theorem reported {rep : Report} (h : Remembers s log t) (hrests : ∃ d, u.Rests s.home d)
    (hm : now.toMonth.IsCommon) (hlater : ∀ p ∈ log, p.1.toMonth ≤ now.toMonth)
    (hi : i.report? = some rep)
    (hadds : Adds now.toMonth rep.entries (fun m => remembered s m t) (fun m => remembered s m u))
    (hnews : News now.toMonth (readMarks (remembered s now.toMonth t)) rep)
    (hlegible : ∀ e ∈ i.entries, e.Legible) (hkept : ∀ e ∈ i.entries, e.statePersisted = true) :
    Remembers s (log ++ [(now, i)]) u := by
  have hentries : i.entries = rep.entries := by rw [Invocation.entries, hi]; rfl
  have hmarks : plannedMarks (log ++ [(now, i)]) =
      plannedMarks log ++ rep.entries.filterMap PlanEntry.mark? := by
    rw [plannedMarks_concat, hentries]
  rw [hentries] at hkept
  refine ⟨hrests, ?_, fun m hm' hlast x => ?_, h.legible_concat hlegible,
    h.covers_concat (h.covers_of_news hm hlater hi hnews)⟩
  · rw [hmarks]
    refine List.nodup_append.mpr ⟨h.nodup, hnews.nodup, fun x hx y hy hxy => ?_⟩
    subst hxy
    obtain ⟨hmonth, hnew⟩ := hnews.new x hy
    exact hnew ((h.marks _ hm hlater x).mpr ⟨hx, hmonth⟩)
  · obtain ⟨hbefore, hnow⟩ := last_le hlast
    rw [hmarks, List.mem_append, or_and_right, ← h.marks m hm' hbefore]
    by_cases heq : m = now.toMonth
    · subst heq
      rw [hadds.marks x]
      refine or_congr_right ⟨?_, ?_⟩
      · rintro ⟨e, he, -, hmark⟩
        have hx := List.mem_filterMap.mpr ⟨e, he, hmark⟩
        exact ⟨hx, (hnews.new x hx).1⟩
      · rintro ⟨hx, -⟩
        obtain ⟨e, he, hmark⟩ := List.mem_filterMap.mp hx
        exact ⟨e, he, hkept e he, hmark⟩
    · have hlt : now.toMonth < m :=
        Int.lt_iff_le_and_ne.mpr ⟨hnow, fun he => heq (Month.index_injective he.symm)⟩
      rw [hadds.later m hm' hlt]
      refine (or_iff_left ?_).symm
      rintro ⟨hx, hmonth⟩
      exact heq (hmonth.symm.trans (hnews.new x hx).1)

theorem invoked (h : Remembers s log t) (hrests : ∃ d, u.Rests s.home d)
    (hm : now.toMonth.IsCommon) (hlater : ∀ p ∈ log, p.1.toMonth ≤ now.toMonth)
    (hacc : Account now.toMonth (fun m => remembered s m t) (fun m => remembered s m u) i)
    (hlegible : ∀ e ∈ i.entries, e.Legible) (hkept : ∀ e ∈ i.entries, e.statePersisted = true) :
    Remembers s (log ++ [(now, i)]) u := by
  cases hi : i.report? with
  | some rep =>
    obtain ⟨hadds, hnews⟩ := (account_of_report hi).mp hacc
    exact h.reported hrests hm hlater hi hadds hnews hlegible hkept
  | none => exact h.quiet hrests hi ((account_of_no_report hi).mp hacc)

end Remembers

/-! ## Courses -/

theorem Course.remembers (ha : s.Apart) (h : Course s log t) : Remembers s log t := by
  induction h with
  | start h => exact .unused ha h
  | changed _ hagree ih => exact ih.changed ha hagree
  | @invoked log t u given clock now runId o i _ hnow hm hlater hrun hkept ih =>
    -- the moment has to do with nothing that is kept
    obtain ⟨d, hr⟩ := ih.rests
    have ha' : { s with now := given }.Apart :=
      ⟨ha.named, ha.arrives, ha.database_state, ha.database_cache, ha.state_cache⟩
    have hr' : t.Rests { s with now := given }.home d := hr
    obtain ⟨hrests, hacc⟩ := invokeAt_account (o := o) runId ha' hr' hm
    have hlegible := legible_of_invoke o runId t hnow hm.1
    rw [← invoke_eq hnow, hrun] at hrests hacc
    rw [hrun] at hlegible
    exact ih.invoked hrests hm hlater hacc hlegible hkept

/-- Of the lines that are told by one mark, one at most is printed. -/
theorem Remembers.countP_printed_le_one (h : Remembers s log t) {p : PlanEntry → Prop}
    [DecidablePred p] {x : Mark} (hp : ∀ e, p e ↔ e.mark? = some x) :
    (printed log).countP (PlanEntry.OnLine p) ≤ 1 := by
  obtain ⟨es, hsub, hlines⟩ := printed_eq log
  have hreread : ∀ e : PlanEntry, p e.reread ↔ p e := fun e => by rw [hp, hp]; rfl
  calc (printed log).countP (PlanEntry.OnLine p)
      = es.countP p := by
        rw [hlines, PlanEntry.countP_onLine (fun e he => h.legible e (hsub.subset he)) hreread]
    _ ≤ (planned log).countP p := hsub.countP_le
    _ ≤ 1 := PlanEntry.countP_le_one h.nodup fun e _ => (hp e).mp

/-- Printed by the end of an invocation or before it. -/
private theorem exists_printed {before after : List (Moment × Invocation)} {p : String → Prop}
    (h : (∃ line ∈ i.stdout, p line) ∨ ∃ line ∈ printed before, p line) :
    ∃ line ∈ printed (before ++ (now, i) :: after), p line := by
  rw [printed, List.flatMap_append, List.flatMap_cons]
  rcases h with ⟨line, hmem, hp⟩ | ⟨line, hmem, hp⟩
  · exact ⟨line, List.mem_append_right _ (List.mem_append_left _ hmem), hp⟩
  · exact ⟨line, List.mem_append_left _ hmem, hp⟩

theorem unused_sample (minutes : String) : Unused Settings.sample (sampleFiles minutes) := by
  refine ⟨fun q hq => ?_, fun name => ?_⟩
  · rcases Place.mem_family.mp hq with rfl | rfl | rfl | rfl <;> rfl
  · have htop : Place.isTop (name :: Settings.sample.store.place) = false := by
      rw [show Settings.sample.store.place = ["flags"] from by decide]
      simp [Place.isTop, Path.upward]
    have hfind : Branch.find? (name :: Settings.sample.store.place).reverse
        (sampleFiles minutes).root = none := by
      rw [List.reverse_cons]
      rfl
    simp only [Tree.node?, Tree.branch?, hfind, htop]
    rfl

/-- Settings of the day after. -/
private def nextSettings : Settings := { Settings.sample with now := some "2026-10-06T09:00" }

private def sampleTuesday : Moment :=
  { Moment.trial with date := { Moment.trial.date with day := 6, day_range := by decide } }

/-- Nine tenths of the ceiling are reached. -/
private def firstRun : Invocation × Tree :=
  invoke Settings.sample Moment.trial "run-1" (sampleFiles "890")

private def exportPlace : Place := ["2026-10.json", "monthly", "data"]

/-- The next export says that the ceiling is reached. -/
private def secondRun : Invocation × Tree :=
  invoke nextSettings Moment.trial "run-2" (firstRun.2.set exportPlace (.file (sampleExport "900")))

/-- The severity that a line tells of. -/
private def told (line : String) : Option Severity :=
  (PlanEntry.ofLine? line).map (·.snapshot.severity)

end Runner

end OvertimeNotice
