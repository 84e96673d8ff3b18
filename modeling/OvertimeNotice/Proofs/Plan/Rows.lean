import Mathlib.Data.List.Induction
import OvertimeNotice.Proofs.Ledger.Calls
import OvertimeNotice.Proofs.Plan.Readable
import OvertimeNotice.Proofs.Plan.Refusal

/-!
# Every row is accounted for

A row is evaluated or it leaves one warning, and which of the two follows from the row and those
before it.

* `RawRow.Valid`, `RawRow.Counts`: a row that can be evaluated, and one that is.
* `RawRow.skip`: the warning about a row that is not.
* `placed`, `intake_eq`: the rows of a run are sorted by what they are and where they stand.
* `evaluated_of_report`, `skips_of_report`: the figures of a report, and its warnings about rows.
* `run_partitions_rows`: the figures and the warnings of a report, row by row.
-/

namespace OvertimeNotice

/-- A number of 32 bits without a sign. -/
def IsWord (i : Int) : Prop := 0 ≤ i ∧ i ≤ 4294967295

instance (i : Int) : Decidable (IsWord i) := instDecidableAnd

/-- What is known of an employee before anything is worked out. -/
structure Basis where
  employee : String
  name : String
  department : String
  month : Month
  minutes : Int
  previousMinutes : Option Int
deriving DecidableEq

def OvertimeRecord.basis (r : OvertimeRecord) : Basis :=
  { employee := r.employee, name := r.name, department := r.department, month := r.month
    minutes := r.minutes.toNat, previousMinutes := r.previousMinutes.map fun n => n.toNat }

def Snapshot.basis (s : Snapshot) : Basis :=
  { employee := s.employee, name := s.name, department := s.department, month := s.month
    minutes := s.minutes.toNat, previousMinutes := s.previousMinutes.map fun n => n.toNat }

/-- The warning is about a row. -/
def Warning.isSkip : Warning → Bool
  | recordSkipped .. => true
  | _ => false

namespace RawRow

/-- The identifier of the employee, as a report has it. -/
def key (row : RawRow) : String := Text.trim row.employee

/-- The row names an employee and a department and has minutes that can be worked with. -/
structure Valid (row : RawRow) : Prop where
  employee : row.key ≠ ""
  department : Text.trim row.department ≠ ""
  minutes : ∃ m ∈ row.minutes, IsWord m

instance (row : RawRow) : Decidable row.Valid :=
  decidable_of_iff (row.key ≠ "" ∧ Text.trim row.department ≠ "" ∧ ∃ m ∈ row.minutes, IsWord m)
    ⟨fun ⟨he, hd, hm⟩ => ⟨he, hd, hm⟩, fun h => ⟨h.employee, h.department, h.minutes⟩⟩

/-- The first thing that is wrong with a row that is not valid. -/
def fault (month : Month) (row : RawRow) : RowFault :=
  if row.key = "" then .noEmployee
  else if Text.trim row.department = "" then .noDepartment
  else
    match row.minutes with
    | none => .noMinutes month
    | some m => .badMinutes m

/-- What a valid row says of its employee. A figure for the previous month that cannot be worked
with is left out. -/
def basis (month : Month) (row : RawRow) : Basis :=
  { employee := row.key, name := row.name, department := Text.trim row.department, month
    minutes := row.minutes.getD 0
    previousMinutes := row.previousMinutes.filter fun m => IsWord m }

/-- Behind the rows `before`, the row is the first valid one of its employee. -/
structure Counts (before : List RawRow) (row : RawRow) : Prop where
  valid : row.Valid
  first : ∀ x ∈ before, x.Valid → x.key ≠ row.key

instance (before : List RawRow) (row : RawRow) : Decidable (row.Counts before) :=
  decidable_of_iff (row.Valid ∧ ∀ x ∈ before, x.Valid → x.key ≠ row.key)
    ⟨fun ⟨hv, hf⟩ => ⟨hv, hf⟩, fun h => ⟨h.valid, h.first⟩⟩

/-- The warning about a row that is not evaluated: a valid one is a repetition, and any other is
named as it was given. -/
def skip (month : Month) (row : RawRow) : Warning :=
  if row.Valid then .recordSkipped row.key "duplicate row"
  else .recordSkipped row.employee (row.fault month).message

variable {month : Month} {row : RawRow} {before : List RawRow}

/-! ## One row -/

theorem word?_eq (i : Int) :
    word? i = if IsWord i then some (UInt32.ofNat i.toNat) else none := rfl

theorem toNat_of_word? {i : Int} {n : UInt32} (h : word? i = some n) : (n.toNat : Int) = i := by
  rw [word?_eq] at h
  split at h
  · rename_i hi
    obtain ⟨hpos, hle⟩ := hi
    have hlt : i.toNat < UInt32.size := by
      rw [UInt32.size]
      omega
    rw [← Option.some.inj h, UInt32.toNat_ofNat_of_lt' hlt, Int.toNat_of_nonneg hpos]
  · exact nomatch h

theorem map_bind_word? (o : Option Int) :
    (o.bind word?).map (fun n => (n.toNat : Int)) = o.filter fun m => IsWord m := by
  cases o with
  | none => rfl
  | some i =>
    by_cases hi : IsWord i
    · have hw : word? i = some (UInt32.ofNat i.toNat) := by rw [word?_eq, if_pos hi]
      rw [Option.bind_some, hw, Option.map_some, toNat_of_word? hw, Option.filter_some,
        if_pos (decide_eq_true hi)]
    · rw [Option.bind_some, word?_eq, if_neg hi, Option.map_none, Option.filter_some,
        if_neg (by simpa using hi)]

theorem accept_of_valid (h : row.Valid) (month : Month) :
    ∃ r, row.accept month = .ok r ∧ r.basis = row.basis month := by
  obtain ⟨he, hd, m, hm, hword⟩ := h
  replace he : Text.trim row.employee ≠ "" := he
  have hw : word? m = some (UInt32.ofNat m.toNat) := by rw [word?_eq, if_pos hword]
  simp only [accept, if_neg he, if_neg hd, Option.mem_def.mp hm, hw]
  refine ⟨_, rfl, ?_⟩
  simp only [OvertimeRecord.basis, basis, map_bind_word?, toNat_of_word? hw, Option.mem_def.mp hm]
  rfl

theorem accept_of_not_valid (h : ¬row.Valid) (month : Month) :
    row.accept month = .error (row.fault month) := by
  unfold accept fault key
  by_cases he : Text.trim row.employee = ""
  · rw [if_pos he, if_pos he]
  by_cases hd : Text.trim row.department = ""
  · rw [if_neg he, if_neg he, if_pos hd, if_pos hd]
  rw [if_neg he, if_neg he, if_neg hd, if_neg hd]
  cases hm : row.minutes with
  | none => rfl
  | some m =>
    have hword : ¬IsWord m := fun hi => h ⟨he, hd, m, hm, hi⟩
    simp only [word?_eq, if_neg hword]

/-- A row is valid just if it is accepted, and then under its identifier. -/
theorem valid_iff (month : Month) :
    row.Valid ↔ ∃ r, row.accept month = .ok r ∧ r.employee = row.key := by
  constructor
  · intro h
    obtain ⟨r, hr, hb⟩ := accept_of_valid h month
    exact ⟨r, hr, congrArg Basis.employee hb⟩
  · rintro ⟨r, hr, -⟩
    by_contra hn
    rw [accept_of_not_valid hn] at hr
    exact nomatch hr

theorem employee_of_accept {r : OvertimeRecord} (h : row.accept month = .ok r) :
    r.employee = row.key := by
  obtain ⟨-, -, _, -, rfl⟩ := accept_eq_ok h
  rfl

theorem counts_iff (month : Month) : row.Counts before ↔ ∃ r, row.TakenAfter month before r := by
  constructor
  · rintro ⟨hv, hfirst⟩
    obtain ⟨r, hr, he⟩ := (valid_iff month).mp hv
    refine ⟨r, hr, fun x hx s hs => ?_⟩
    rw [he, employee_of_accept hs]
    exact hfirst x hx ((valid_iff month).mpr ⟨s, hs, employee_of_accept hs⟩)
  · rintro ⟨r, hr, hfirst⟩
    refine ⟨(valid_iff month).mpr ⟨r, hr, employee_of_accept hr⟩, fun x hx hv => ?_⟩
    obtain ⟨s, hs, he⟩ := (valid_iff month).mp hv
    rw [← he, ← employee_of_accept hr]
    exact hfirst x hx s hs

end RawRow

/-- The rows with those before each. -/
def placed (rows : List RawRow) : List (List RawRow × RawRow) :=
  rows.mapIdx fun i row => (rows.take i, row)

theorem placed_concat (rows : List RawRow) (row : RawRow) :
    placed (rows ++ [row]) = placed rows ++ [(rows, row)] := by
  rw [placed, List.mapIdx_concat]
  congr 1
  · refine List.ext_getElem (by simp [placed]) fun i hi hi' => ?_
    rw [List.length_mapIdx] at hi
    simp [placed, List.take_append_of_le_length (Nat.le_of_lt hi)]
  · simp

/-- A run about two employees, for trials: one row without a department, a valid one that comes with
blanks and a bad figure for the month before, a repetition, one without minutes, one with too many,
and a last valid one. -/
def RunRequest.assorted : RunRequest :=
  let ann : RawRow :=
    { employee := "1001", name := "Ann", department := "300", identity := some "ann@example.com"
      minutes := some 600, previousMinutes := none }
  let ben : RawRow :=
    { employee := "1002", name := "Ben", department := "300", identity := none
      minutes := some 0, previousMinutes := some 60 }
  { RunRequest.trial 600 0 .threshold with
    rows := [{ ann with employee := " 1001", department := " " },
      { ann with employee := " 1001 ", department := "300 ", previousMinutes := some (-1) },
      ann, { ben with minutes := none }, { ben with minutes := some 4294967296 }, ben] }

namespace Planner

open RawRow (TakenAfter)

variable {month : Month} {rows before : List RawRow} {row : RawRow}

/-! ## All rows -/

theorem intake_concat_of_counts (h : row.Counts before) (month : Month) :
    ∃ r, r.basis = row.basis month ∧ intake month (before ++ [row]) =
      { intake month before with records := (intake month before).records ++ [r] } := by
  obtain ⟨r, hr, hb⟩ := RawRow.accept_of_valid h.valid month
  have hnew : ¬((intake month before).records.any fun s => s.employee == r.employee) = true := by
    simp only [List.any_eq_true, beq_iff_eq, exists_record_iff]
    rintro ⟨x, hx, s, hs, he⟩
    obtain ⟨r', htaken⟩ := (RawRow.counts_iff month).mp h
    obtain rfl : r = r' := Except.ok.inj (hr.symm.trans htaken.valid)
    exact htaken.first x hx s hs he
  refine ⟨r, hb, ?_⟩
  rw [intake_concat, Intake.add, hr]
  exact if_neg hnew

theorem intake_concat_of_not_counts (h : ¬row.Counts before) (month : Month) :
    intake month (before ++ [row]) =
      { intake month before with
        warnings := (intake month before).warnings ++ [row.skip month] } := by
  rw [intake_concat, Intake.add, RawRow.skip]
  by_cases hv : row.Valid
  · obtain ⟨r, hr, he⟩ := (RawRow.valid_iff month).mp hv
    -- a valid row that does not count has a valid one of its employee before it
    have hknown : ((intake month before).records.any fun s => s.employee == r.employee) = true := by
      simp only [List.any_eq_true, beq_iff_eq, exists_record_iff]
      by_contra hnone
      refine h ((RawRow.counts_iff month).mpr ⟨r, hr, fun x hx s hs hse => ?_⟩)
      exact hnone ⟨x, hx, s, hs, hse⟩
    rw [hr, if_pos hv, ← he]
    exact if_pos hknown
  · rw [RawRow.accept_of_not_valid hv, if_neg hv]

/-- The rows that count become records, and each of the others a warning. -/
theorem intake_eq (month : Month) (rows : List RawRow) :
    (intake month rows).records.map OvertimeRecord.basis =
        ((placed rows).filter fun p => p.2.Counts p.1).map (fun p => p.2.basis month) ∧
      (intake month rows).warnings =
        ((placed rows).filter fun p => ¬p.2.Counts p.1).map fun p => p.2.skip month := by
  induction rows using List.reverseRecOn with
  | nil => exact ⟨rfl, rfl⟩
  | append_singleton rows row ih =>
    obtain ⟨hrecords, hwarnings⟩ := ih
    rw [placed_concat, List.filter_append, List.filter_append]
    by_cases h : row.Counts rows
    · obtain ⟨r, hb, hi⟩ := intake_concat_of_counts h month
      simp [hi, hrecords, hwarnings, h, hb]
    · simp [intake_concat_of_not_counts h month, hrecords, hwarnings, h]

theorem trim_employee {r : OvertimeRecord} (h : r ∈ (intake month rows).records) :
    r.employee ≠ "" ∧ Text.trim r.employee = r.employee := by
  obtain ⟨_, row, _, -, htaken⟩ := mem_records_iff.mp h
  have hv := ((RawRow.counts_iff month).mpr ⟨r, htaken⟩).valid
  rw [RawRow.employee_of_accept htaken.valid]
  exact ⟨hv.employee, Text.trim_trim _⟩

variable {σ : Type} {b : Backend σ} {c : Config}

/-! ## The warnings of a ledger -/

/-- No warning about a row is raised in a ledger. -/
theorem skips_loaded (month : Month) (l : Ledger σ) :
    (l.loaded b month).warnings.filter Warning.isSkip = l.warnings.filter Warning.isSkip := by
  unfold Ledger.loaded
  split
  · rfl
  · split
    · rfl
    · simp [Warning.isSkip]

theorem Steps.skips {l l' : Ledger σ} {es : List PlanEntry} {asked : Prop}
    (h : Steps b month l l' es asked) :
    l'.warnings.filter Warning.isSkip = l.warnings.filter Warning.isSkip := by
  induction h with
  | idle => rfl
  | looked => exact skips_loaded _ _
  | sent _ hr => rw [warnings_marked, skips_loaded, skips_loaded]
  | trans _ _ ih ih₁ => exact ih₁.trans ih

theorem skips_decideAll (mode : RunMode) {work : List (OvertimeRecord × Snapshot)}
    (hw : WorkOf month work) (l : Ledger σ) :
    (decideAll b c mode work l).2.warnings.filter Warning.isSkip =
      l.warnings.filter Warning.isSkip := by
  cases mode with
  | forced => rw [(decideAll_forced work l).1]
  | threshold =>
    obtain ⟨-, -, -, hsteps⟩ := decideAll_threshold (b := b) (c := c) (l := l) hw
    exact hsteps.skips

/-- No call to a ledger leaves a warning about a row. -/
theorem skips_performAll (s : σ) (calls : List LedgerCall) :
    (Ledger.performAll b calls (.fresh s)).2.warnings.filter Warning.isSkip = [] := by
  suffices h : ∀ l : Ledger σ, l.warnings.filter Warning.isSkip = [] →
      (Ledger.performAll b calls l).2.warnings.filter Warning.isSkip = [] from h _ rfl
  induction calls with
  | nil => exact fun l h => h
  | cons call calls ih =>
    refine fun l h => ih _ ?_
    cases call with
    | has e => exact (skips_loaded e.month l).trans h
    | mark e =>
      have hmarked : (l.markNotified b e.employee e.month e.marker).2.warnings =
          (l.loaded b e.month).warnings := by
        rw [Ledger.markNotified]
        split <;> rfl
      exact (congrArg _ hmarked).trans ((skips_loaded e.month l).trans h)
    | reset m => exact h
    | drain => rfl
    | reopen => rfl

/-! ## Reports -/

theorem basis_of_ofRecord {r : OvertimeRecord} {ceiling : UInt32} {s : Snapshot}
    (h : Snapshot.ofRecord r ceiling = .ok s) : s.basis = r.basis := by
  obtain ⟨e, -, rfl⟩ := Snapshot.ofRecord_eq_ok h
  rfl

theorem Evaluated.map_basis {records : List OvertimeRecord}
    {work : List (OvertimeRecord × Snapshot)} (h : Evaluated c records work) :
    (work.map (·.2)).map Snapshot.basis = records.map OvertimeRecord.basis := by
  rw [← h.records, List.map_map, List.map_map]
  refine List.map_congr_left fun w hw => ?_
  obtain ⟨_, -, hs⟩ := h.snapshot w hw
  exact basis_of_ofRecord hs

/-- The warnings that go with entries are not about rows. -/
theorem Warned.isSkip {es : List PlanEntry} {failures : List (List Warning)} {ws : List Warning}
    (h : Warned es failures ws) : ∀ w ∈ ws, w.isSkip = false := by
  induction h with
  | nil => exact nofun
  | @cons e fs es failures ws _ hf _ ih =>
    intro w hw
    rw [List.mem_append, List.mem_append] at hw
    rcases hw with (hw | hw) | hw
    · unfold gapWarnings at hw
      split at hw
      · rw [List.mem_singleton.mp hw]
        rfl
      · exact nomatch hw
    · obtain ⟨k, reason, rfl⟩ := hf w hw
      rfl
    · exact ih w hw

section

variable {runId : String} {now : Moment} {decision : RunDecision} {l l' : Ledger σ} {rep : Report}

/-- What a run evaluates are the figures of the accepted records. -/
theorem evaluated_of_report (h : run b c runId now decision rows l = (.ok rep, l')) :
    ∃ work, Evaluated c (intake now.toMonth rows).records work ∧
      rep.evaluated = work.map (·.2) := by
  obtain ⟨work, hev, rfl, rfl⟩ := run_eq_ok h
  exact ⟨work, hev,
    (figures_decideAll (b := b) (c := c) decision.mode (l := l) hev.workOf).1⟩

theorem nodup_of_report (h : run b c runId now decision rows l = (.ok rep, l')) :
    (rep.evaluated.map (·.employee)).Nodup := by
  obtain ⟨work, hev, hevaluated⟩ := evaluated_of_report h
  rw [hevaluated, List.map_map]
  exact hev.workOf.nodup

/-- The warnings about rows in a report: those that the ledger had to hand out, and one for each row
that does not count. -/
theorem skips_of_report (h : run b c runId now decision rows l = (.ok rep, l')) :
    rep.warnings.filter Warning.isSkip = l.warnings.filter Warning.isSkip ++
      ((placed rows).filter fun p => ¬p.2.Counts p.1).map fun p => p.2.skip now.toMonth := by
  obtain ⟨work, hev, rfl, rfl⟩ := run_eq_ok h
  obtain ⟨failures, hwarned⟩ :=
    warned_decideAll (b := b) (c := c) decision.mode hev.workOf.subject l
  have hledger := skips_decideAll (b := b) (c := c) decision.mode hev.workOf l
  have hrows : (intake now.toMonth rows).warnings.filter Warning.isSkip =
      (intake now.toMonth rows).warnings := by
    rw [(intake_eq _ _).2, List.filter_eq_self]
    refine List.forall_mem_map.mpr fun p _ => ?_
    unfold RawRow.skip
    split <;> rfl
  have hentries : ((decideAll b c decision.mode work l).1.flatMap (·.warnings)).filter
      Warning.isSkip = [] :=
    List.filter_eq_nil_iff.mpr fun w hw => by simp [hwarned.isSkip w hw]
  simp only [report, Ledger.drain, List.filter_append, hledger, hrows, hentries, List.append_nil]
  rw [(intake_eq _ _).2]

/-- **Every row is evaluated or reported, once.** The evaluated figures are those of the first valid
row of each employee, in row order, whatever invalid rows stand before it. Each other row leaves one
warning, in row order: an invalid one under the identifier it came with, a valid one under that of
the employee it repeats. Such warnings never come from a ledger in use, by `skips_performAll`. -/
theorem run_partitions_rows (h : run b c runId now decision rows l = (.ok rep, l')) :
    rep.evaluated.map Snapshot.basis =
        ((placed rows).filter fun p => p.2.Counts p.1).map (fun p => p.2.basis now.toMonth) ∧
      rep.warnings.filter Warning.isSkip = l.warnings.filter Warning.isSkip ++
        ((placed rows).filter fun p => ¬p.2.Counts p.1).map (fun p => p.2.skip now.toMonth) ∧
      (∀ before row after, rows = before ++ row :: after → row.Valid →
        (∀ x ∈ before, x.key = row.key → ¬x.Valid) →
          ∃ s ∈ rep.evaluated, s.basis = row.basis now.toMonth) ∧
      (rep.evaluated.map (·.employee)).Nodup ∧
      ∀ s ∈ rep.evaluated, s.employee ≠ "" ∧ Text.trim s.employee = s.employee := by
  obtain ⟨work, hev, hevaluated⟩ := evaluated_of_report h
  have hbasis := hev.map_basis.trans (intake_eq now.toMonth rows).1
  rw [← hevaluated] at hbasis
  refine ⟨hbasis, skips_of_report h, fun before row after hrows hv hbefore => ?_,
    nodup_of_report h, fun s hs => ?_⟩
  · have hcounts : row.Counts before := ⟨hv, fun x hx hxv he => hbefore x hx he hxv⟩
    obtain ⟨r, htaken⟩ := (RawRow.counts_iff now.toMonth).mp hcounts
    have hr : r ∈ (intake now.toMonth rows).records :=
      mem_records_iff.mpr ⟨before, row, after, hrows, htaken⟩
    rw [← hev.records] at hr
    obtain ⟨w, hw, rfl⟩ := List.mem_map.mp hr
    obtain ⟨_, -, hs⟩ := hev.snapshot w hw
    obtain ⟨r', hr', hb⟩ := RawRow.accept_of_valid hv now.toMonth
    obtain rfl : w.1 = r' := Except.ok.inj (htaken.valid.symm.trans hr')
    exact ⟨w.2, hevaluated ▸ List.mem_map_of_mem hw, (basis_of_ofRecord hs).trans hb⟩
  · rw [hevaluated] at hs
    obtain ⟨w, hw, rfl⟩ := List.mem_map.mp hs
    rw [(hev.workOf.subject w hw).1]
    exact trim_employee (hev.records ▸ List.mem_map_of_mem hw)

end

theorem run_partitions_rows_memory :
    ∃ rep l', RunRequest.assorted.on Backend.memory (.fresh .empty) = (.ok rep, l') ∧
      rep.evaluated.map Snapshot.basis = [
        { employee := "1001", name := "Ann", department := "300"
          month := Moment.trial.toMonth, minutes := 600, previousMinutes := none },
        { employee := "1002", name := "Ben", department := "300"
          month := Moment.trial.toMonth, minutes := 0, previousMinutes := some 60 }] ∧
      rep.warnings.filter Warning.isSkip = [
        .recordSkipped " 1001" "missing department code",
        .recordSkipped "1001" "duplicate row",
        .recordSkipped "1002" "no overtime figure for 2026-10",
        .recordSkipped "1002" "invalid overtime minutes 4294967296"] := by
  have hok : (RunRequest.assorted.on Backend.memory (.fresh .empty)).1.isOk = true := by
    decide +kernel
  cases h : RunRequest.assorted.on Backend.memory (.fresh .empty) with
  | mk answer l' =>
    rw [h] at hok
    cases answer with
    | error f => exact nomatch hok
    | ok rep =>
      obtain ⟨hevaluated, hskips, -⟩ := run_partitions_rows h
      refine ⟨rep, l', rfl, hevaluated.trans ?_, hskips.trans ?_⟩
      · decide +kernel
      · decide +kernel

end Planner

end OvertimeNotice
