import OvertimeNotice.Proofs.Calendar.TextOrder
import OvertimeNotice.State.Database

/-!
# The table of marks

What the rows of a database say of a month, after each statement that changes them. The rows of a
month are told by its text, so months do not mix.

* `Marker.ofKey?_key`: every marker that is ever sent reads back from its key.
* `Marker.key_injective`: a key belongs to one marker.
* `Tables.mem_marksOf_upserted`, `Tables.marksOf_upserted_of_ne`, `Tables.marksOf_purged`: the marks
  of a month afterwards.
-/

namespace OvertimeNotice

theorem Marker.ofKey?_key {k : Marker} (h : k ≠ .level .none) : Marker.ofKey? k.key = some k := by
  cases k with
  | selfEscalation => rfl
  | level s =>
    cases s with
    | none => exact absurd rfl h
    | p60 => decide +kernel
    | p70 => decide +kernel
    | p80 => decide +kernel
    | p90 => decide +kernel
    | p100 => decide +kernel

/-- A key belongs to one marker. -/
theorem Marker.key_injective : Function.Injective Marker.key := by
  intro k k' he
  have hnone : ofKey? (key (.level .none)) = none := by decide +kernel
  by_cases h : k = .level .none <;> by_cases h' : k' = .level .none
  · rw [h, h']
  · have hk := ofKey?_key h'
    rw [← he, h, hnone] at hk
    exact nomatch hk
  · have hk := ofKey?_key h
    rw [he, h', hnone] at hk
    exact nomatch hk
  · have hk := ofKey?_key h
    rw [he, ofKey?_key h', Option.some.injEq] at hk
    exact hk.symm

namespace Tables

/-- The marks of a month, as its rows tell them. -/
def marksOf (t : Tables) (month : Month) : List Mark :=
  (Database.markRows t month).filterMap fun r =>
    (Marker.ofKey? r.marker).map fun marker => { employee := r.employee, month, marker }

theorem loadMarks_ready (t : Tables) (month : Month) :
    (Database.ready t).loadMarks month = .ok (t.marksOf month) := rfl

theorem mem_marksOf {t : Tables} {month : Month} {x : Mark} : x ∈ t.marksOf month ↔
    x.month = month ∧ ∃ r ∈ t.marks, r.month = month.text ∧ r.employee = x.employee ∧
      Marker.ofKey? r.marker = some x.marker := by
  simp only [marksOf, Database.markRows, List.mem_filterMap, List.mem_mergeSort, List.mem_filter,
    beq_iff_eq, Option.map_eq_some_iff]
  constructor
  · rintro ⟨r, ⟨hr, hm⟩, k, hk, rfl⟩
    exact ⟨rfl, r, hr, hm, rfl, hk⟩
  · rintro ⟨rfl, r, hr, hm, he, hk⟩
    exact ⟨r, ⟨hr, hm⟩, x.marker, hk, by rw [he]⟩

/-- A month reads as before if its rows are what they were. -/
theorem marksOf_congr {t u : Tables} {month : Month}
    (h : (u.marks.filter fun r => r.month == month.text) =
      t.marks.filter fun r => r.month == month.text) : u.marksOf month = t.marksOf month := by
  rw [marksOf, marksOf, Database.markRows, Database.markRows, h]

/-- The tables with a row for a mark, unless it is there. -/
def upserted (t : Tables) (e : Mark) : Tables :=
  if t.marks.contains (.ofMark e) then t else { t with marks := t.marks ++ [.ofMark e] }

/-- The tables without the rows of months before a month. -/
def purged (t : Tables) (month : Month) : Tables :=
  { t with marks := t.marks.filter fun r => !decide (r.month < month.text) }

theorem upsertMark_ready (t : Tables) (e : Mark) :
    (Database.ready t).upsertMark e = .ok (.ready (t.upserted e)) := by
  simp only [Database.upsertMark, Database.tables, Except.map, upserted]
  split <;> rfl

theorem purgeMarks_ready (t : Tables) (month : Month) :
    (Database.ready t).purgeMarks month =
      .ok (t.marks.length - (t.purged month).marks.length, .ready (t.purged month)) := rfl

variable {t : Tables} {e : Mark} {month : Month}

theorem mem_marks_upserted {r : MarkRow} :
    r ∈ (t.upserted e).marks ↔ r = .ofMark e ∨ r ∈ t.marks := by
  unfold upserted
  split
  case isTrue h =>
    constructor
    · exact .inr
    · rintro (rfl | hr)
      · exact List.contains_iff_mem.mp h
      · exact hr
  case isFalse => rw [List.mem_append, List.mem_singleton, or_comm]

theorem mem_marksOf_upserted (h : e.marker ≠ .level .none) (x : Mark) :
    x ∈ (t.upserted e).marksOf e.month ↔ x = e ∨ x ∈ t.marksOf e.month := by
  simp only [mem_marksOf, mem_marks_upserted]
  constructor
  · rintro ⟨hx, r, rfl | hr, hm, he, hk⟩
    · rw [MarkRow.ofMark, Marker.ofKey?_key h, Option.some.injEq] at hk
      left
      cases x
      cases e
      simp_all [MarkRow.ofMark]
    · exact .inr ⟨hx, r, hr, hm, he, hk⟩
  · rintro (rfl | ⟨hx, r, hr, hm, he, hk⟩)
    · exact ⟨rfl, _, .inl rfl, rfl, rfl, Marker.ofKey?_key h⟩
    · exact ⟨hx, r, .inr hr, hm, he, hk⟩

theorem marksOf_upserted_of_ne (h : month ≠ e.month) :
    (t.upserted e).marksOf month = t.marksOf month := by
  refine marksOf_congr ?_
  unfold upserted
  split
  case isTrue => rfl
  case isFalse =>
    have hne : ((MarkRow.ofMark e).month == month.text) = false :=
      beq_eq_false_iff_ne.mpr fun ht => h (Month.text_injective ht).symm
    simp [List.filter_append, hne]

/-- A purge spares the months from its own on. -/
theorem marksOf_purged {m : Month} (hm : m.IsCommon) (hmonth : month.IsCommon) (h : month ≤ m) :
    (t.purged month).marksOf m = t.marksOf m := by
  refine marksOf_congr ?_
  rw [purged, List.filter_filter]
  refine List.filter_congr fun r _ => ?_
  by_cases hr : r.month = m.text
  · have hlt : ¬r.month < month.text := by
      rw [hr, Month.text_lt_text hm hmonth]
      exact Int.not_lt.mpr h
    simp [hlt]
  · simp [hr]

end Tables

end OvertimeNotice
