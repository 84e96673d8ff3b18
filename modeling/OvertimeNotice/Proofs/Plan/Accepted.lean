import Mathlib.Data.List.Induction
import OvertimeNotice.Proofs.Plan.Intake

/-!
# Which rows are accepted

The records of a run are those of the valid rows that are the first of their employee, in row
order.

* `RawRow.TakenAfter`: a row is taken after the rows before it.
* `records_of_taken`, `taken_of_records`: the records, one after the other, are those of the rows
  that are taken.
* `RawRow.firstOf?`, `filter_records`: the record of an employee is that of their first valid row.
-/

namespace OvertimeNotice

namespace RawRow

/-- The row is taken after the rows `before`, as the record `r`: it is valid, and no valid row among
those is of the same employee. -/
structure TakenAfter (month : Month) (before : List RawRow) (row : RawRow)
    (r : OvertimeRecord) : Prop where
  valid : row.accept month = .ok r
  first : ∀ x ∈ before, ∀ s, x.accept month = .ok s → s.employee ≠ r.employee

/-- The row is valid and of the employee. -/
def isOf (month : Month) (employee : String) (row : RawRow) : Bool :=
  (row.accept month).toOption.any fun r => r.employee == employee

/-- The first valid row of an employee. -/
def firstOf? (month : Month) (employee : String) (rows : List RawRow) : Option RawRow :=
  rows.find? (isOf month employee)

variable {month : Month} {employee : String} {row : RawRow} {r : OvertimeRecord}

theorem isOf_iff :
    row.isOf month employee = true ↔ ∃ r, row.accept month = .ok r ∧ r.employee = employee := by
  cases h : row.accept month <;> simp [isOf, h, Except.toOption]

theorem isOf_of_ok (h : row.accept month = .ok r) :
    row.isOf month employee = (r.employee == employee) := by
  simp [isOf, h, Except.toOption]

end RawRow

namespace Planner

open RawRow (TakenAfter)

variable {month : Month} {rows before after : List RawRow} {row : RawRow} {r : OvertimeRecord}

/-! ## One more row -/

theorem intake_concat (month : Month) (rows : List RawRow) (row : RawRow) :
    intake month (rows ++ [row]) = (intake month rows).add month row := by
  simp [intake]

/-- A row adds its record, or it is not valid, or its employee is known. -/
theorem Intake.records_add (month : Month) (i : Intake) (row : RawRow) :
    (∃ r, row.accept month = .ok r ∧ (∀ s ∈ i.records, s.employee ≠ r.employee) ∧
      (i.add month row).records = i.records ++ [r]) ∨
    (∀ r, row.accept month = .ok r → ∃ s ∈ i.records, s.employee = r.employee) ∧
      (i.add month row).records = i.records := by
  unfold Intake.add
  split
  case h_1 f hf => exact .inr ⟨by simp [hf], rfl⟩
  case h_2 r hr =>
    split
    case isTrue hknown =>
      refine .inr ⟨fun r' hr' => ?_, rfl⟩
      obtain rfl : r = r' := Except.ok.inj (hr.symm.trans hr')
      simpa using hknown
    case isFalse hnew => exact .inl ⟨r, hr, by simpa using hnew, rfl⟩

/-- There is a record of an employee who has a valid row. -/
theorem exists_record_iff (employee : String) :
    (∃ s ∈ (intake month rows).records, s.employee = employee) ↔
      ∃ x ∈ rows, ∃ s, x.accept month = .ok s ∧ s.employee = employee := by
  induction rows using List.reverseRecOn with
  | nil => simp [intake]
  | append_singleton rows row ih =>
    simp only [intake_concat, List.mem_append, List.mem_singleton, or_and_right, exists_or,
      exists_eq_left, ← ih]
    rcases Intake.records_add month (intake month rows) row with
      ⟨r, hr, -, hrecords⟩ | ⟨hknown, hrecords⟩
    · simp [hrecords, hr, or_and_right, exists_or]
    · rw [hrecords]
      refine (or_iff_left_of_imp ?_).symm
      rintro ⟨r, hr, rfl⟩
      exact hknown r hr

theorem records_concat_of_taken (h : row.TakenAfter month before r) :
    (intake month (before ++ [row])).records = (intake month before).records ++ [r] := by
  have hnone : ¬∃ s ∈ (intake month before).records, s.employee = r.employee := by
    rw [exists_record_iff]
    rintro ⟨x, hx, s, hs, he⟩
    exact h.first x hx s hs he
  rw [intake_concat]
  rcases Intake.records_add month (intake month before) row with
    ⟨r', hr', -, hrecords⟩ | ⟨hknown, -⟩
  · obtain rfl : r = r' := Except.ok.inj (h.valid.symm.trans hr')
    exact hrecords
  · exact absurd (hknown r h.valid) hnone

theorem records_concat_of_not_taken (h : ∀ r, ¬row.TakenAfter month before r) :
    (intake month (before ++ [row])).records = (intake month before).records := by
  rw [intake_concat]
  rcases Intake.records_add month (intake month before) row with
    ⟨r, hr, hnew, -⟩ | ⟨-, hrecords⟩
  · refine absurd ⟨hr, fun x hx s hs he => ?_⟩ (h r)
    obtain ⟨s', hs', he'⟩ := (exists_record_iff r.employee).mpr ⟨x, hx, s, hs, he⟩
    exact hnew s' hs' he'
  · exact hrecords

/-! ## All rows -/

/-- Later rows do not change the records there are. -/
theorem records_prefix (month : Month) (before after : List RawRow) :
    (intake month before).records <+: (intake month (before ++ after)).records := by
  induction after using List.reverseRecOn with
  | nil => simp
  | append_singleton after row ih =>
    rw [← List.append_assoc]
    by_cases h : ∃ r, row.TakenAfter month (before ++ after) r
    · obtain ⟨r, hr⟩ := h
      rw [records_concat_of_taken hr]
      exact ih.trans (List.prefix_append _ _)
    · rwa [records_concat_of_not_taken fun r hr => h ⟨r, hr⟩]

/-- A row that is taken has its record behind those of the rows before it. -/
theorem records_of_taken (h : row.TakenAfter month before r) (after : List RawRow) :
    (intake month before).records ++ [r] <+: (intake month (before ++ row :: after)).records := by
  have hprefix := records_prefix month (before ++ [row]) after
  rwa [records_concat_of_taken h, List.append_assoc, List.singleton_append] at hprefix

/-- A record is that of a row that is taken, and the records before it are those of the rows before
that one. -/
theorem taken_of_records {rs rs' : List OvertimeRecord}
    (h : (intake month rows).records = rs ++ r :: rs') :
    ∃ before row after, rows = before ++ row :: after ∧ row.TakenAfter month before r ∧
      (intake month before).records = rs := by
  induction rows using List.reverseRecOn generalizing rs' with
  | nil => simp [intake] at h
  | append_singleton rows row ih =>
    -- a record of the earlier rows is theirs, whatever the last row is
    have hearlier : ∀ rs'', (intake month rows).records = rs ++ r :: rs'' →
        ∃ before x after, rows ++ [row] = before ++ x :: after ∧ x.TakenAfter month before r ∧
          (intake month before).records = rs := by
      intro rs'' hrs
      obtain ⟨before, x, after, rfl, hx, hbefore⟩ := ih hrs
      exact ⟨before, x, after ++ [row], by simp, hx, hbefore⟩
    by_cases ht : ∃ r', row.TakenAfter month rows r'
    · obtain ⟨r', hr'⟩ := ht
      rw [records_concat_of_taken hr'] at h
      rcases List.eq_nil_or_concat rs' with rfl | ⟨rs'', x, rfl⟩
      · obtain ⟨hrs, hr⟩ := List.append_inj' h rfl
        obtain rfl : r' = r := List.singleton_inj.mp hr
        exact ⟨rows, row, [], rfl, hr', hrs⟩
      · rw [List.concat_eq_append, ← List.cons_append, ← List.append_assoc] at h
        exact hearlier rs'' (List.append_inj' h rfl).1
    · rw [records_concat_of_not_taken fun r' hr' => ht ⟨r', hr'⟩] at h
      exact hearlier rs' h

/-- The record of an employee, if there is one, is that of their first valid row. -/
theorem filter_records (month : Month) (rows : List RawRow) (employee : String) :
    (intake month rows).records.filter (fun r => r.employee == employee) =
      ((RawRow.firstOf? month employee rows).bind
        fun row => (row.accept month).toOption).toList := by
  induction rows using List.reverseRecOn with
  | nil => rfl
  | append_singleton rows row ih =>
    have hfirst : RawRow.firstOf? month employee (rows ++ [row]) =
        (RawRow.firstOf? month employee rows).or
          (if row.isOf month employee then some row else none) := by
      simp [RawRow.firstOf?, List.find?_append, List.find?_singleton]
    by_cases ht : ∃ r, row.TakenAfter month rows r
    · obtain ⟨r, hr⟩ := ht
      rw [records_concat_of_taken hr, List.filter_append, ih, hfirst, RawRow.isOf_of_ok hr.valid]
      by_cases he : r.employee = employee
      · -- the row is taken, so there is no earlier one of its employee
        have hnone : RawRow.firstOf? month employee rows = none := by
          rw [RawRow.firstOf?, List.find?_eq_none]
          intro x hx hof
          obtain ⟨s, hs, hse⟩ := RawRow.isOf_iff.mp hof
          exact hr.first x hx s hs (hse.trans he.symm)
        simp [hnone, he, hr.valid, Except.toOption]
      · simp [he]
    · rw [records_concat_of_not_taken fun r hr => ht ⟨r, hr⟩, ih, hfirst]
      by_cases hof : row.isOf month employee = true
      · -- the row is not taken, so an earlier one of its employee is the first
        obtain ⟨r, hr, he⟩ := RawRow.isOf_iff.mp hof
        obtain ⟨x, hx, s, hs, hse⟩ : ∃ x ∈ rows, ∃ s, x.accept month = .ok s ∧
            s.employee = r.employee := by
          by_contra hnone
          exact ht ⟨r, hr, fun x hx s hs hse => hnone ⟨x, hx, s, hs, hse⟩⟩
        have hsome : (RawRow.firstOf? month employee rows).isSome = true := by
          rw [RawRow.firstOf?, List.find?_isSome]
          exact ⟨x, hx, RawRow.isOf_iff.mpr ⟨s, hs, hse.trans he⟩⟩
        rw [Option.or_of_isSome hsome]
      · rw [if_neg hof, Option.or_none]

end Planner

end OvertimeNotice
