import OvertimeNotice.Proofs.Ledger.Alike
import OvertimeNotice.Proofs.Plan.Persistence
import OvertimeNotice.Proofs.State.Calls

/-!
# Runs on everyone stand apart

A run on everyone asks its ledger nothing. So among other runs it may as well not have been made:
all that it changes is which report hands out the warnings of the ledger.

* `Planner.same_on`: on ledgers alike, a run decides the same.
* `Planner.on_forced`, `Planner.report_of_forced`: what a run on everyone leaves and reports.
* `runAll`: runs one after the other, over one ledger or a new one each.
* `runAll_without_forced`: the other runs do not notice those on everyone.
-/

namespace OvertimeNotice

/-- The report without its warnings. -/
def Report.withoutWarnings (rep : Report) : Report := { rep with warnings := [] }

namespace Planner

open Ledger (Same)

variable {σ : Type} {b : Backend σ} {c : Config} {mode : RunMode} {r : OvertimeRecord}
  {s : Snapshot} {l l' : Ledger σ}

/-! ## Runs on ledgers alike -/

theorem same_marked (h : l.Alike l') (k : Marker) (e : PlanEntry) :
    Same (marked b r k e l) (marked b r k e l') := by
  obtain ⟨answer, l₁, l₁', h₁, h₁', ha⟩ :=
    (h.markNotified (b := b) r.employee r.month k).exists
  simp only [marked, h₁, h₁']
  cases answer <;> exact ⟨rfl, ha⟩

theorem same_ordinaryOutcome (h : l.Alike l') :
    Same (ordinaryOutcome b c r s l) (ordinaryOutcome b c r s l') := by
  unfold ordinaryOutcome
  dsimp only
  split
  · obtain ⟨yes, l₁, l₁', h₁, h₁', ha⟩ :=
      (h.hasNotified (b := b) r.employee r.month (.level s.severity)).exists
    simp only [h₁, h₁']
    cases yes with
    | true => exact ⟨rfl, ha⟩
    | false =>
      obtain ⟨m, l₂, l₂', h₂, h₂', ha'⟩ := (same_marked (b := b) (r := r) ha (.level s.severity)
        (entry .ordinary .threshold
          (c.recipientsOf r.department r.employee r.identity .threshold s.severity) s)).exists
      simp only [h₂, h₂']
      exact ⟨rfl, ha'⟩
  · exact ⟨rfl, h⟩

theorem same_withEscalation {o : Outcome} (h : l.Alike l') :
    Same (withEscalation b c r (o, l)) (withEscalation b c r (o, l')) := by
  unfold withEscalation
  dsimp only
  split
  · exact ⟨rfl, h⟩
  · rename_i identity _
    obtain ⟨yes, l₁, l₁', h₁, h₁', ha⟩ :=
      (h.hasNotified (b := b) r.employee r.month .selfEscalation).exists
    simp only [h₁, h₁']
    cases yes with
    | true => exact ⟨rfl, ha⟩
    | false =>
      obtain ⟨m, l₂, l₂', h₂, h₂', ha'⟩ := (same_marked (b := b) (r := r) ha .selfEscalation
        (entry .selfEscalation .threshold (.onlyEmployee identity) o.snapshot)).exists
      simp only [h₂, h₂']
      exact ⟨rfl, ha'⟩

theorem same_outcome (h : l.Alike l') :
    Same (outcome b c mode r s l) (outcome b c mode r s l') := by
  cases mode with
  | forced => exact ⟨rfl, h⟩
  | threshold =>
    obtain ⟨o, l₁, l₁', h₁, h₁', ha⟩ :=
      (same_ordinaryOutcome (b := b) (c := c) (r := r) (s := s) h).exists
    simp only [outcome, h₁, h₁']
    exact same_withEscalation ha

theorem same_outcomes (ws : List (OvertimeRecord × UInt32)) (h : l.Alike l') :
    Same (outcomes b c mode ws l) (outcomes b c mode ws l') := by
  induction ws generalizing l l' with
  | nil => exact ⟨rfl, h⟩
  | cons w ws ih =>
    obtain ⟨r, ceiling⟩ := w
    rw [outcomes, outcomes]
    cases Snapshot.ofRecord r ceiling with
    | error v => exact ⟨rfl, h⟩
    | ok s =>
      have hsame : Same (outcome b c mode r s l) (outcome b c mode r s l') := same_outcome h
      obtain ⟨o, l₁, l₁', h₁, h₁', ha⟩ := hsame.exists
      obtain ⟨os, l₂, l₂', h₂, h₂', ha'⟩ := (ih ha).exists
      simp only [h₁, h₁', h₂, h₂']
      exact ⟨rfl, ha'⟩

/-- On ledgers alike a run gives the same report, up to the warnings of the ledgers. -/
theorem same_on (q : RunRequest) (h : l.Alike l') :
    (q.on b l).1.map Report.withoutWarnings = (q.on b l').1.map Report.withoutWarnings ∧
      (q.on b l).2.Alike (q.on b l').2 := by
  rw [RunRequest.on, RunRequest.on, run, run]
  cases withCeilings q.config (intake q.now.toMonth q.rows).records with
  | error f => exact ⟨rfl, h⟩
  | ok work =>
    have hsame : Same (outcomes b q.config q.decision.mode work l)
        (outcomes b q.config q.decision.mode work l') := same_outcomes work h
    obtain ⟨answer, l₁, l₁', h₁, h₁', ha⟩ := hsame.exists
    simp only [h₁, h₁']
    cases answer with
    | error v => exact ⟨rfl, ha⟩
    | ok os => exact ⟨rfl, ha.store, ha.months⟩

/-! ## Runs on everyone -/

theorem outcomes_forced_ledger (ws : List (OvertimeRecord × UInt32)) (l : Ledger σ) :
    (outcomes b c .forced ws l).2 = l := by
  induction ws generalizing l with
  | nil => rfl
  | cons w ws ih =>
    rw [outcomes]
    split
    · rfl
    · exact ih l

/-- A run on everyone leaves its ledger as it was, whether it gives a report or not. -/
theorem on_forced {q : RunRequest} (hq : q.decision.mode = .forced) (l : Ledger σ) :
    (q.on b l).2.Alike l := by
  rw [RunRequest.on, run, hq]
  cases withCeilings q.config (intake q.now.toMonth q.rows).records with
  | error f => exact .refl l
  | ok work =>
    have hl := outcomes_forced_ledger (b := b) (c := q.config) work l
    dsimp only
    split
    · rename_i h
      rw [h] at hl
      exact hl ▸ .refl _
    · rename_i h
      rw [h] at hl
      exact hl ▸ Ledger.alike_drain _

theorem decideAll_forced_eq (work : List (OvertimeRecord × Snapshot)) (l : Ledger σ) :
    (decideAll b c .forced work l).1 = work.map fun w => forcedOutcome c w.1 w.2 := by
  induction work generalizing l with
  | nil => rfl
  | cons w ws ih =>
    rw [decideAll, List.map_cons]
    exact congrArg _ (ih l)

/-- A run on everyone reports each employee once and holds nothing back. -/
theorem report_of_forced {q : RunRequest} {rep : Report} (hq : q.decision.mode = .forced)
    (h : q.on b l = (.ok rep, l')) :
    rep.suppressed = [] ∧
      rep.entries.map (fun e => (e.snapshot, e.kind, e.mode, e.statePersisted)) =
        rep.evaluated.map fun s => (s, .forced, .forced, true) := by
  obtain ⟨work, -, rfl, -⟩ := run_eq_ok h
  simp only [report, hq, decideAll_forced_eq, List.flatMap_map, List.map_map]
  constructor
  · exact List.flatMap_eq_nil_iff.mpr fun w _ => rfl
  · rw [List.map_flatMap]
    exact List.map_eq_flatMap.symm

end Planner

/-! ## Runs one after the other -/

/-- What the runs of a sequence are made over. -/
inductive LedgerUse where
  /-- One ledger. -/
  | shared
  /-- A new ledger each, over the same backend. -/
  | renewed
deriving DecidableEq, Repr

/-- The ledger of the next run. -/
def LedgerUse.next {σ : Type} (use : LedgerUse) (l : Ledger σ) : Ledger σ :=
  match use with
  | shared => l
  | renewed => l.reopen

/-- A run that was made, with its ledger before and after. -/
structure Ran (σ : Type) where
  request : RunRequest
  before : Ledger σ
  answer : Except Failure Report
  after : Ledger σ

namespace Ran

/-- All that can be told of a run afterwards, but for warnings. -/
def effect {σ : Type} (r : Ran σ) :
    RunRequest × Except Failure Report × List (Month × MonthMarks) × σ :=
  (r.request, r.answer.map Report.withoutWarnings, r.after.months, r.after.store)

end Ran

variable {σ : Type}

/-- The runs made one after the other, and the ledger after them. -/
def runAll (b : Backend σ) (use : LedgerUse) : List RunRequest → Ledger σ → List (Ran σ) × Ledger σ
  | [], l => ([], l)
  | q :: qs, l =>
    let r := q.on b (use.next l)
    let more := runAll b use qs r.2
    (⟨q, use.next l, r.1, r.2⟩ :: more.1, more.2)

variable {b : Backend σ} {use : LedgerUse} {l l' : Ledger σ}

theorem next_next (use : LedgerUse) (l : Ledger σ) : use.next (use.next l) = use.next l := by
  cases use <;> rfl

theorem store_next (use : LedgerUse) (l : Ledger σ) : (use.next l).store = l.store := by
  cases use <;> rfl

theorem Ledger.Alike.next (h : l.Alike l') (use : LedgerUse) :
    (use.next l).Alike (use.next l') := by
  cases use with
  | shared => exact h
  | renewed => exact ⟨h.store, rfl⟩

theorem on_of_mem_runAll {qs : List RunRequest} {r : Ran σ} (h : r ∈ (runAll b use qs l).1) :
    r.request.on b r.before = (r.answer, r.after) := by
  induction qs generalizing l with
  | nil => exact nomatch h
  | cons q qs ih =>
    rcases List.mem_cons.mp h with rfl | h
    · rfl
    · exact ih h

/-- Without the runs on everyone, the others have the same effects, and what comes after them is
alike. -/
theorem runAll_alike (qs : List RunRequest) (h : (use.next l).Alike (use.next l')) :
    let all := runAll b use qs l
    let rest := runAll b use (qs.filter fun q => !q.decision.isForced) l'
    (all.1.filter fun r => !r.request.decision.isForced).map Ran.effect = rest.1.map Ran.effect ∧
      (use.next all.2).Alike (use.next rest.2) := by
  induction qs generalizing l l' with
  | nil => exact ⟨rfl, h⟩
  | cons q qs ih =>
    by_cases hq : q.decision.isForced = true
    · have hmode : q.decision.mode = .forced := eq_of_beq hq
      have hleft := (Planner.on_forced (b := b) hmode (use.next l)).next use
      rw [next_next] at hleft
      obtain ⟨heffects, hafter⟩ := ih (hleft.trans h)
      simp only [runAll, List.filter_cons, hq, Bool.not_true, Bool.false_eq_true, if_false]
      exact ⟨heffects, hafter⟩
    · have hq' : (!q.decision.isForced) = true := by simpa using hq
      obtain ⟨hanswer, halike⟩ := Planner.same_on (b := b) q h
      obtain ⟨heffects, hafter⟩ := ih (halike.next use)
      simp only [runAll, List.filter_cons, hq', if_true, List.map_cons]
      refine ⟨?_, hafter⟩
      rw [heffects, Ran.effect, Ran.effect, hanswer, halike.months, halike.store]

/-- **Runs on everyone stand apart.** Without them every other run ends as it did, with the same
marks kept in its ledger and the same state and calls behind it, and so does the whole sequence. And
where one gives a report, nothing was asked of the backend, and the report has an entry for everyone
who was evaluated and nobody else. -/
theorem runAll_without_forced (b : Backend σ) (use : LedgerUse) (qs : List RunRequest)
    (l : Ledger (Recorded σ)) :
    let all := runAll b.recorded use qs l
    let rest := runAll b.recorded use (qs.filter fun q => !q.decision.isForced) l
    (all.1.filter fun r => !r.request.decision.isForced).map Ran.effect = rest.1.map Ran.effect ∧
      all.2.store = rest.2.store ∧ (use = .shared → all.2.months = rest.2.months) ∧
      ∀ r ∈ all.1, r.request.decision.isForced = true → ∀ rep, r.answer = .ok rep →
        r.after.store = r.before.store ∧ rep.suppressed = [] ∧
          rep.entries.map (fun e => (e.snapshot, e.kind, e.mode, e.statePersisted)) =
            rep.evaluated.map fun s => (s, .forced, .forced, true) := by
  intro all rest
  obtain ⟨heffects, halike⟩ := runAll_alike (b := b.recorded) qs (.refl (use.next l))
  have hstore := halike.store
  rw [store_next, store_next] at hstore
  refine ⟨heffects, hstore, ?_, fun r hr hforced rep hrep => ?_⟩
  · rintro rfl
    exact halike.months
  · have hmode : r.request.decision.mode = .forced := eq_of_beq hforced
    have hon := on_of_mem_runAll hr
    have hafter := Planner.on_forced (b := b.recorded) hmode r.before
    rw [hon] at hafter
    rw [hrep] at hon
    exact ⟨hafter.store, Planner.report_of_forced hmode hon⟩

/-- A run on everyone between two others, over one ledger. -/
theorem runAll_without_forced_memory :
    let reached := RunRequest.trial 600 600 .threshold
    let qs := [reached, RunRequest.trial 600 600 (.forced .forceAlways), reached]
    let all := runAll Backend.memory.recorded .shared qs (.fresh ⟨.empty, []⟩)
    all.1.map (fun r => r.answer.toOption.map fun rep => rep.entries.map (·.kind)) =
      [some [.ordinary, .selfEscalation], some [.forced], some []] ∧
      all.2.store = (runAll Backend.memory.recorded .shared [reached, reached]
        (.fresh ⟨.empty, []⟩)).2.store := by
  intro reached qs all
  obtain ⟨-, hstore, -⟩ :=
    runAll_without_forced Backend.memory .shared qs (.fresh ⟨.empty, []⟩)
  exact ⟨by decide +kernel, hstore⟩

end OvertimeNotice
