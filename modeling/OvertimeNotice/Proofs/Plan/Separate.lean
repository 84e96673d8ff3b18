import OvertimeNotice.Proofs.Plan.Accepted
import OvertimeNotice.Proofs.Plan.Threshold

/-!
# Employees do not influence each other

What a run on steps newly reached says of an employee follows from their first valid row and from
their marks of the month, whoever else has rows or marks.

* `Report.about`: what a report says of an employee.
* `about_eq_of_evaluated`: it is decided by the employee's own evaluated record.
* `about_eq`: two runs that agree on an employee's row and marks say the same of them.
-/

namespace OvertimeNotice

/-- What a report says of an employee, but for whether marks were written: their figures, why they
have no ordinary entry, and the entries on them, in order. -/
structure PersonalReport where
  figures : List Snapshot
  suppressed : List Suppressed
  entries : List PlanEntry
deriving DecidableEq

/-- What the report says of an employee. -/
def Report.about (rep : Report) (employee : String) : PersonalReport where
  figures := rep.evaluated.filter fun s => s.employee == employee
  suppressed := rep.suppressed.filter fun s => s.employee == employee
  entries := (rep.entriesFor employee).map PlanEntry.planned

namespace Planner

section

variable {c : Config} {records : List OvertimeRecord}
  {work work' : List (OvertimeRecord × Snapshot)}

/-! ## The evaluated record of an employee -/

theorem Evaluated.filter (h : Evaluated c records work) (p : OvertimeRecord → Bool) :
    Evaluated c (records.filter p) (work.filter fun w => p w.1) := by
  refine ⟨?_, fun w hw => h.snapshot w (List.mem_of_mem_filter hw)⟩
  rw [← h.records, List.filter_map]
  rfl

/-- The figures of a record follow from the configuration. -/
theorem Evaluated.unique (h : Evaluated c records work) (h' : Evaluated c records work') :
    work = work' := by
  obtain ⟨hr, hs⟩ := h
  obtain ⟨hr', hs'⟩ := h'
  rw [← hr'] at hr
  clear hr'
  induction work generalizing work' with
  | nil => exact (List.map_eq_nil_iff.mp hr.symm).symm
  | cons w work ih =>
    cases work' with
    | nil => exact nomatch hr
    | cons w' work' =>
      rw [List.map_cons, List.map_cons, List.cons.injEq] at hr
      obtain ⟨hw, hrest⟩ := hr
      obtain ⟨⟨ceiling, hc, hsnap⟩, hs⟩ := List.forall_mem_cons.mp hs
      obtain ⟨⟨ceiling', hc', hsnap'⟩, hs'⟩ := List.forall_mem_cons.mp hs'
      have hsame : w = w' := by
        rw [← hw, hc, Option.some.injEq] at hc'
        rw [← hw, ← hc', hsnap] at hsnap'
        exact Prod.ext hw (Except.ok.inj hsnap')
      rw [hsame, ih hrest hs hs']

end

/-- What comes of some of the elements, told from the rest by `p`, is what comes of them alone. -/
theorem filter_flatMap_of_mine {α β : Type} {l : List α} {f : α → List β} {p : β → Bool}
    {mine : α → Bool} (h : ∀ a ∈ l, ∀ x ∈ f a, p x = mine a) :
    (l.flatMap f).filter p = (l.filter mine).flatMap f := by
  induction l with
  | nil => rfl
  | cons a l ih =>
    obtain ⟨ha, hl⟩ := List.forall_mem_cons.mp h
    rw [List.flatMap_cons, List.filter_append, ih hl, List.filter_cons]
    by_cases hm : mine a = true
    · have hall : (f a).filter p = f a := List.filter_eq_self.mpr fun x hx => (ha x hx).trans hm
      rw [hall, if_pos hm, List.flatMap_cons]
    · have hnone : (f a).filter p = [] :=
        List.filter_eq_nil_iff.mpr fun x hx hp => hm ((ha x hx).symm.trans hp)
      rw [hnone, if_neg hm, List.nil_append]

variable {σ τ : Type} {b : Backend σ} {b' : Backend τ} {employee : String}

theorem mem_stepSuppressed {sent : MonthMarks} {s : Snapshot} {x : Suppressed}
    (h : x ∈ stepSuppressed sent s) : x.employee = s.employee := by
  unfold stepSuppressed at h
  split at h
  · exact nomatch h
  · rw [List.mem_singleton.mp h]

/-- What a run says of an employee is decided by their own record. -/
theorem about_eq_of_evaluated {q : RunRequest} {l l₁ : Ledger σ} {rep : Report}
    (hm : q.decision.mode = .threshold) (h : q.on b l = (.ok rep, l₁)) (employee : String) :
    let sent := l.standing b q.now.toMonth
    ∃ mine : List (OvertimeRecord × Snapshot),
      Evaluated q.config ((intake q.now.toMonth q.rows).records.filter (·.employee == employee))
        mine ∧
      (∀ w ∈ mine, w.2.employee = employee) ∧
      rep.about employee = {
        figures := mine.map (·.2)
        suppressed := mine.flatMap fun w => stepSuppressed sent w.2
        entries := mine.flatMap fun w =>
          stepEntries q.config sent w.1 w.2 ++ noticeEntries q.config sent w.1 w.2 } := by
  intro sent
  obtain ⟨work, hev, hsnap, hentries, hsupp, -⟩ := run_threshold hm h
  have hsubject : ∀ w ∈ work, w.2.employee = w.1.employee :=
    fun w hw => (hev.workOf.subject w hw).1
  refine ⟨_, hev.filter (·.employee == employee), fun w hw => ?_, ?_⟩
  · obtain ⟨hw, he⟩ := List.mem_filter.mp hw
    exact (hsubject w hw).trans (eq_of_beq he)
  · have hfigures : rep.evaluated.filter (·.employee == employee) =
        (work.filter (·.1.employee == employee)).map (·.2) := by
      rw [hsnap, List.filter_map]
      refine congrArg _ (List.filter_congr fun w hw => ?_)
      simp [hsubject w hw]
    have hsuppressed : rep.suppressed.filter (·.employee == employee) =
        (work.filter (·.1.employee == employee)).flatMap fun w => stepSuppressed sent w.2 := by
      rw [hsupp]
      refine filter_flatMap_of_mine fun w hw x hx => ?_
      rw [mem_stepSuppressed hx, hsubject w hw]
    have hplanned : (rep.entriesFor employee).map PlanEntry.planned =
        (work.filter (·.1.employee == employee)).flatMap fun w =>
          stepEntries q.config sent w.1 w.2 ++ noticeEntries q.config sent w.1 w.2 := by
      have hfilter : (rep.entriesFor employee).map PlanEntry.planned =
          (rep.entries.map PlanEntry.planned).filter (·.snapshot.employee == employee) := by
        rw [Report.entriesFor, List.filter_map]
        rfl
      rw [hfilter, hentries]
      refine filter_flatMap_of_mine fun w hw e he => ?_
      have hsnapshot : e.snapshot = w.2 := by
        rcases List.mem_append.mp he with he | he
        · exact (mem_stepEntries he).2
        · exact (mem_noticeEntries he).2
      rw [hsnapshot, hsubject w hw]
    simp only [Report.about, hfigures, hsuppressed, hplanned]

/-- **Employees do not influence each other.** Two runs of a month on steps newly reached, under one
configuration, say the same of an employee whose first valid row is the same and about whose marks
the ledgers answer the same. -/
theorem about_eq {q q' : RunRequest} {l l₁ : Ledger σ} {l' l₁' : Ledger τ} {rep rep' : Report}
    (hconfig : q'.config = q.config) (hmonth : q'.now.toMonth = q.now.toMonth)
    (hm : q.decision.mode = .threshold) (hm' : q'.decision.mode = .threshold)
    (hrow : RawRow.firstOf? q.now.toMonth employee q'.rows =
      RawRow.firstOf? q.now.toMonth employee q.rows)
    (hmarks : ∀ k, (l'.hasNotified b' employee q.now.toMonth k).1 =
      (l.hasNotified b employee q.now.toMonth k).1)
    (h : q.on b l = (.ok rep, l₁)) (h' : q'.on b' l' = (.ok rep', l₁')) :
    rep'.about employee = rep.about employee := by
  obtain ⟨mine, hev, hsubject, habout⟩ := about_eq_of_evaluated hm h employee
  obtain ⟨mine', hev', -, habout'⟩ := about_eq_of_evaluated hm' h' employee
  have hsent : ∀ k, (employee, k) ∈ l'.standing b' q.now.toMonth ↔
      (employee, k) ∈ l.standing b q.now.toMonth := by
    intro k
    have hk := hmarks k
    rwa [Ledger.hasNotified_eq, Ledger.hasNotified_eq, Bool.eq_iff_iff, List.contains_iff_mem,
      List.contains_iff_mem] at hk
  -- the employee's record is the same in both, and so are its figures
  rw [filter_records, hmonth, hrow, ← filter_records, hconfig] at hev'
  obtain rfl : mine' = mine := hev'.unique hev
  rw [habout, habout', hmonth, hconfig, PersonalReport.mk.injEq]
  refine ⟨rfl, List.flatMap_congr fun w hw => ?_, List.flatMap_congr fun w hw => ?_⟩
  · rw [← hsubject w hw] at hsent
    exact stepSuppressed_congr hsent
  · rw [← hsubject w hw] at hsent
    rw [stepEntries_congr hsent, noticeEntries_congr (hsent .selfEscalation)]

private def row (employee : String) (minutes : Int) : RawRow :=
  { employee, name := "Ann", department := "300", identity := some "ann@example.com"
    minutes := some minutes, previousMinutes := none }

private def alone : RunRequest := .trial 600 600 .threshold

/-- The same employee behind others, with a second row. -/
private def amidst : RunRequest :=
  { alone with rows := [row "1002" 540, row " " 60] ++ alone.rows ++ [row "1001" 0] }

private def told : MemoryMarks :=
  { MemoryMarks.empty with marks := [⟨"1001", alone.now.toMonth, .level .p100⟩] }

private def alsoTold : MemoryMarks :=
  { marks := ⟨"1002", alone.now.toMonth, .selfEscalation⟩ :: told.marks
    failRead := false, failWrite := true, failPurge := false }

/-- Direct notice to one employee, whoever else has rows and whatever they were sent, and whether
its mark can be written or not. -/
theorem about_eq_memory :
    ∃ rep l₁ rep' l₁', alone.on Backend.memory (.fresh told) = (.ok rep, l₁) ∧
      amidst.on Backend.memory (.fresh alsoTold) = (.ok rep', l₁') ∧
      rep'.evaluated.length = 2 ∧ rep'.about "1001" = rep.about "1001" ∧
      (rep.about "1001").entries.map (·.kind) = [.selfEscalation] := by
  have hkinds : (alone.on Backend.memory (.fresh told)).1.map (fun rep =>
      (rep.about "1001").entries.map (·.kind)) = .ok [.selfEscalation] := by
    decide +kernel
  have hlength : (amidst.on Backend.memory (.fresh alsoTold)).1.map (fun rep =>
      rep.evaluated.length) = .ok 2 := by
    decide +kernel
  have hrow : RawRow.firstOf? alone.now.toMonth "1001" amidst.rows =
      RawRow.firstOf? alone.now.toMonth "1001" alone.rows := by
    decide +kernel
  have hmarks : ∀ k, ((Ledger.fresh alsoTold).hasNotified Backend.memory "1001"
      alone.now.toMonth k).1 =
        ((Ledger.fresh told).hasNotified Backend.memory "1001" alone.now.toMonth k).1 := by
    rintro (s | _)
    · cases s <;> decide
    · decide
  cases h : alone.on Backend.memory (.fresh told) with
  | mk answer l₁ =>
    cases h' : amidst.on Backend.memory (.fresh alsoTold) with
    | mk answer' l₁' =>
      rw [h] at hkinds
      rw [h'] at hlength
      cases answer with
      | error f => exact nomatch hkinds
      | ok rep =>
        cases answer' with
        | error f => exact nomatch hlength
        | ok rep' =>
          have habout : rep'.about "1001" = rep.about "1001" := by
            refine about_eq ?_ ?_ ?_ ?_ hrow hmarks h h' <;> rfl
          exact ⟨rep, l₁, rep', l₁', rfl, rfl, Except.ok.inj hlength, habout,
            Except.ok.inj hkinds⟩

end Planner

end OvertimeNotice
