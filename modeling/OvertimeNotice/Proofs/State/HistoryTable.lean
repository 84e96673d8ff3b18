import Mathlib.Data.List.Basic
import OvertimeNotice.Proofs.Calendar.MonthText
import OvertimeNotice.State.Database

/-!
# The history table

Rows are only ever added to it, and the history of a run is read off those of the run, each with its
number. A month that cannot be read would hide all of them.

* `Tables.appended`: the tables with more rows of history.
* `Tables.recordsOf`, `Tables.historyOf_ready`: the history of a run.
* `Tables.recordsOf_appended`: what more rows add to it.
* `Tables.id_of_mem_recordsOf`, `HistoryRecord.pairwise_numbered`: how records are numbered.
-/

namespace OvertimeNotice

/-- The row of a record. Its number is left to the table. -/
def HistoryRow.ofRecord (r : HistoryRecord) : HistoryRow :=
  { run := r.run, month := r.month.text, employee := r.employee, kind := r.kind
    payload := r.payload, recordedAt := r.recordedAt }

namespace HistoryRecord

/-- Both records have a number, the first a smaller one. -/
def Earlier (a b : HistoryRecord) : Prop := ∃ i j, a.id = some i ∧ b.id = some j ∧ i < j

/-- The records with numbers one after the other. -/
def numbered (first : Nat) (records : List HistoryRecord) : List HistoryRecord :=
  (records.zipIdx first).map fun r => { r.1 with id := some r.2 }

variable {first : Nat} {records : List HistoryRecord} {r : HistoryRecord}

theorem id_of_mem_numbered (h : r ∈ numbered first records) :
    ∃ n : Nat, r.id = some (n : Int) ∧ first ≤ n := by
  obtain ⟨⟨a, n⟩, ha, rfl⟩ := List.mem_map.mp h
  exact ⟨n, rfl, (List.mem_zipIdx ha).1⟩

theorem pairwise_numbered (first : Nat) (records : List HistoryRecord) :
    (numbered first records).Pairwise Earlier := by
  have hnumbers : ((records.zipIdx first).map Prod.snd).Pairwise (· < ·) := by
    rw [List.zipIdx_map_snd]
    exact List.pairwise_lt_range'
  rw [numbered, List.pairwise_map]
  refine (List.pairwise_map.mp hnumbers).imp fun {a b} hlt => ?_
  exact ⟨a.2, b.2, rfl, rfl, by exact_mod_cast hlt⟩

/-- Numbering changes nothing but the numbers. -/
theorem map_numbered (h : ∀ r ∈ records, r.id = none) :
    (numbered first records).map (fun r => { r with id := none }) = records := by
  rw [numbered, List.map_map]
  calc (records.zipIdx first).map _ = (records.zipIdx first).map Prod.fst := by
        refine List.map_congr_left fun a ha => ?_
        have hid : a.1.id = none := h _ (List.fst_mem_of_mem_zipIdx ha)
        simp only [Function.comp_def, ← hid]
    _ = records := List.zipIdx_map_fst _ _

end HistoryRecord

namespace Tables

open Database (readRow)
open HistoryRecord (numbered)

variable {t : Tables} {run : String} {records : List HistoryRecord}

/-- The tables with more rows of history. -/
def appended (t : Tables) (records : List HistoryRecord) : Tables :=
  { t with history := t.history ++ records.map .ofRecord }

/-- The months of the history can be read. -/
def Dated (t : Tables) : Prop := ∀ r ∈ t.history, ∃ m : Month, m.IsPlain ∧ r.month = m.text

/-- The rows of a run with their numbers, as far as they can be read. -/
def recordsOf (t : Tables) (run : String) : List HistoryRecord :=
  ((t.history.zipIdx 1).filter fun r => r.1.run == run).filterMap fun r =>
    (readRow r.1 r.2).toOption

theorem appended_cons (t : Tables) (r : HistoryRecord) (records : List HistoryRecord) :
    t.appended (r :: records) = (t.appended [r]).appended records := by
  simp [appended]

theorem Dated.appended (h : t.Dated) (hm : ∀ r ∈ records, r.month.IsPlain) :
    (t.appended records).Dated := by
  intro row hrow
  rcases List.mem_append.mp hrow with hrow | hrow
  · exact h row hrow
  · obtain ⟨r, hr, rfl⟩ := List.mem_map.mp hrow
    exact ⟨r.month, hm r hr, rfl⟩

/-! ## Reading -/

theorem readRow_ofRecord {r : HistoryRecord} (h : r.month.IsPlain) (number : Nat) :
    readRow (.ofRecord r) number = .ok { r with id := some (number : Int) } := by
  simp only [readRow, HistoryRow.ofRecord, h.parse_text]

theorem id_of_readRow {row : HistoryRow} {number : Nat} {r : HistoryRecord}
    (h : readRow row number = .ok r) : r.id = some (number : Int) := by
  rw [readRow] at h
  split at h
  · exact nomatch h
  · rw [← Except.ok.inj h]

/-- A list all of whose elements give a result gives all of them. -/
theorem mapM_eq_ok {α β ε : Type} {f : α → Except ε β} {l : List α}
    (h : ∀ a ∈ l, ∃ b, f a = .ok b) : l.mapM f = .ok (l.filterMap fun a => (f a).toOption) := by
  induction l with
  | nil => rfl
  | cons a l ih =>
    obtain ⟨⟨b, hb⟩, hl⟩ := List.forall_mem_cons.mp h
    rw [List.mapM_cons, hb, ih hl, List.filterMap_cons, hb]
    rfl

/-- Where all months can be read, so can the history of every run. -/
theorem historyOf_ready (h : t.Dated) (run : String) :
    (Database.ready t).historyOf run = .ok (t.recordsOf run) := by
  refine mapM_eq_ok fun r hr => ?_
  obtain ⟨m, hm, htext⟩ := h r.1 (List.fst_mem_of_mem_zipIdx (List.mem_filter.mp hr).1)
  cases hread : readRow r.1 r.2 with
  | ok r' => exact ⟨r', rfl⟩
  | error e => simp [readRow, htext, hm.parse_text] at hread

/-- One more row of a run is read after the others, or else hides them. -/
theorem historyOf_appended {r : HistoryRecord} {before : List HistoryRecord}
    (h : (Database.ready t).historyOf r.run = .ok before) :
    (Database.ready (t.appended [r])).historyOf r.run =
      (readRow (.ofRecord r) (t.history.length + 1)).map fun r' => before ++ [r'] := by
  have hbefore : ((t.history.zipIdx 1).filter fun row => row.1.run == r.run).mapM
      (fun row => readRow row.1 row.2) = .ok before := h
  -- Numbers are places in the whole table, not among the rows of the run.
  have hrow : ([HistoryRow.ofRecord r].zipIdx (1 + t.history.length)).filter
      (fun row => row.1.run == r.run) = [(.ofRecord r, t.history.length + 1)] := by
    simp [HistoryRow.ofRecord, Nat.add_comm]
  show (((t.history ++ [HistoryRow.ofRecord r]).zipIdx 1).filter
    fun row => row.1.run == r.run).mapM (fun row => readRow row.1 row.2) = _
  rw [List.zipIdx_append, List.filter_append, List.mapM_append, hbefore, hrow,
    List.mapM_cons, List.mapM_nil]
  cases readRow (.ofRecord r) (t.history.length + 1) <;> rfl

theorem id_of_mem_recordsOf {r : HistoryRecord} (h : r ∈ t.recordsOf run) :
    ∃ n : Nat, r.id = some (n : Int) ∧ n ≤ t.history.length := by
  obtain ⟨⟨row, n⟩, hrow, hr⟩ := List.mem_filterMap.mp h
  obtain ⟨-, hlt, -⟩ := List.mem_zipIdx (List.mem_filter.mp hrow).1
  cases hread : readRow row n with
  | error f => simp [hread, Except.toOption] at hr
  | ok r' =>
    simp only [hread, Except.toOption, Option.some.injEq] at hr
    exact ⟨n, id_of_readRow (hr ▸ hread), by omega⟩

/-- More rows add their records, numbered on from the last row, to the history of their run. -/
theorem recordsOf_appended (hm : ∀ r ∈ records, r.month.IsPlain) (run : String) :
    (t.appended records).recordsOf run = t.recordsOf run ++
      (numbered (t.history.length + 1) records).filter fun r => r.run == run := by
  have hread : ∀ a ∈ records.zipIdx (t.history.length + 1),
      (readRow (.ofRecord a.1) a.2).toOption = some { a.1 with id := some (a.2 : Int) } :=
    fun a ha => by
      rw [readRow_ofRecord (hm _ (List.fst_mem_of_mem_zipIdx ha))]
      rfl
  rw [recordsOf, appended, List.zipIdx_append, List.filter_append, List.filterMap_append,
    List.zipIdx_map, List.filter_map, List.filterMap_map, numbered, List.filter_map,
    Nat.add_comm 1]
  refine congrArg _ ?_
  rw [← List.filterMap_eq_map]
  exact List.filterMap_congr fun a ha => hread a (List.mem_filter.mp ha).1

end Tables

end OvertimeNotice
