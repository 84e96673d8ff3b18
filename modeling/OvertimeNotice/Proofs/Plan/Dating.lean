import OvertimeNotice.Proofs.Calendar.MonthGrammar
import OvertimeNotice.Proofs.Plan.Readable
import OvertimeNotice.Proofs.State.Adding
import OvertimeNotice.Proofs.State.HistoryTable

/-!
# Months that are kept

The month of a date is kept as text: in the flag file of the month, in rows of the history and in
reports. A text that does not read back takes along all that is read together with it: the file,
the history of the run, the report. The text of a month of a year before zero is one.

* `FlagFiles.upsert_reread`: a flag file with one more mark.
* `Database.appendHistory_reread`: the history of a run with one more row.
* `RunRequest.report_reread`: the text of a report.
* `Date.toMonth_reread`: what becomes of the month of a date that is kept.
-/

namespace OvertimeNotice

/-! ## Flag files -/

namespace FlagFiles

variable {s : FlagFiles} {t : Tree} {e : Mark} {file : MonthFile}

/-- A mark is written with its month, and the file is corrupt from then on if the month does not
read back. -/
theorem upsert_reread (h : s.CanReplace e.month t) (hread : s.readToAmend e.month t = .ok file)
    (hk : ¬(file.keysOf e.employee).contains e.marker.key = true) :
    ∃ u, s.upsert e t = (.ok (), u) ∧ s.read e.month u =
      if e.month.IsPlain then .ok (file.insert e)
      else .error (.corruptState (s.pathText e.month ++ ": " ++ jsonComplaint)) := by
  obtain ⟨u, hw, hg, hu⟩ := h.replaced hread (file.insert e)
  have htext := h.readText hg hu
  refine ⟨u, (upsert_of_amend hread hk).trans hw, ?_⟩
  split
  · have hplain : ∀ month ∈ (file.insert e).month, month.IsPlain := fun month hmonth =>
      Option.some.inj hmonth ▸ ‹e.month.IsPlain›
    simp only [read, htext, MonthFile.parse_pretty hplain]
  · have hmonth : (file.insert e).month = some e.month := rfl
    simp only [read, htext, MonthFile.parse_pretty_of_not hmonth ‹_›]

end FlagFiles

/-! ## The history -/

namespace Database

theorem readRow_reread (r : HistoryRecord) (number : Nat) : readRow (.ofRecord r) number =
    if r.month.IsPlain then .ok { r with id := some (number : Int) }
    else .error (.badMonth (.badYear r.month.text)) := by
  split
  · exact Tables.readRow_ofRecord ‹_› number
  · simp only [readRow, HistoryRow.ofRecord, Month.parse_text_of_not ‹_›]

/-- A row is added whatever its month, and hides the history of its run if that does not read
back. -/
theorem appendHistory_reread {db : Database} {r : HistoryRecord} {before : List HistoryRecord}
    (h : db.historyOf r.run = .ok before) :
    ∃ after number, db.appendHistory r = .ok after ∧ after.historyOf r.run =
      if r.month.IsPlain then .ok (before ++ [{ r with id := some number }])
      else .error (.badMonth (.badYear r.month.text)) := by
  cases db with
  | blank => exact nomatch h
  | ready t =>
    refine ⟨.ready (t.appended [r]), (t.history.length + 1 : Nat), rfl, ?_⟩
    rw [Tables.historyOf_appended h, readRow_reread]
    split <;> rfl

end Database

/-! ## Reports -/

section

variable {σ : Type} {b : Backend σ} {q : RunRequest} {l l' : Ledger σ} {rep : Report}

/-- A report has a text whatever its month, which is read as the report with its percentages read
again, or as none. -/
theorem RunRequest.report_reread (hl : ∀ w ∈ l.warnings, w.IsPlain)
    (h : q.on b l = (.ok rep, l')) :
    (Json.parse? rep.toJson.compact).bind Report.ofJson? =
      if q.now.toMonth.IsPlain then some rep.reread else none := by
  obtain ⟨hfigures, hmoderate⟩ := Planner.fits_of_report h
  split
  · have hplain := Planner.isPlain_of_report ‹q.now.toMonth.IsPlain›.1 hl h
    exact Report.ofText?_compact hplain hmoderate
  · -- The text denotes a value all the same; it is the month in it that no report has.
    have hmonth : ¬rep.reread.month.IsPlain := Planner.month_of_report h ▸ ‹_›
    rw [Report.parse?_of_fits (fun s hs => (hfigures s hs).2) hmoderate, Option.bind_some,
      Report.ofJson?_toJson_of_not hmonth]

end

/-! ## Dates -/

/-- **A month that is kept can be read again if its year is not negative, and only then.** Before
year zero the year in its text is refused, because the sign is taken for the hyphen. A flag file
that a mark was added to is then corrupt, a run with a row in the history has no history, and a
report is read as none, although each of them was written without a word. -/
theorem Date.toMonth_reread (d : Date) :
    Month.parse d.toMonth.text =
        (if 0 ≤ d.year then .ok d.toMonth else .error (.badYear d.toMonth.text)) ∧
      (∀ (s : FlagFiles) (e : Mark) (t : Tree) (file : MonthFile), e.month = d.toMonth →
        s.CanReplace e.month t → s.readToAmend e.month t = .ok file →
        ¬(file.keysOf e.employee).contains e.marker.key = true →
        ∃ u, s.upsert e t = (.ok (), u) ∧ s.read e.month u =
          if 0 ≤ d.year then .ok (file.insert e)
          else .error (.corruptState (s.pathText e.month ++ ": " ++ jsonComplaint))) ∧
      (∀ (db : Database) (r : HistoryRecord) (before : List HistoryRecord),
        r.month = d.toMonth → db.historyOf r.run = .ok before →
        ∃ after number, db.appendHistory r = .ok after ∧ after.historyOf r.run =
          if 0 ≤ d.year then .ok (before ++ [{ r with id := some number }])
          else .error (.badMonth (.badYear r.month.text))) ∧
      ∀ (σ : Type) (b : Backend σ) (q : RunRequest) (l l' : Ledger σ) (rep : Report),
        q.now.date = d → (∀ w ∈ l.warnings, w.IsPlain) → q.on b l = (.ok rep, l') →
        (Json.parse? rep.toJson.compact).bind Report.ofJson? =
          if 0 ≤ d.year then some rep.reread else none := by
  have hyear := d.isPlain_toMonth
  refine ⟨?_, fun s e t file he h hread hk => ?_, fun db r before hr h => ?_,
    fun σ b q l l' rep hq hl h => ?_⟩
  · exact (Month.parse_text_eq d.toMonth).trans (if_congr hyear rfl rfl)
  · obtain ⟨u, hu, hreread⟩ := FlagFiles.upsert_reread h hread hk
    exact ⟨u, hu, hreread.trans (if_congr (he ▸ hyear) rfl rfl)⟩
  · obtain ⟨after, number, hafter, hreread⟩ := Database.appendHistory_reread h
    exact ⟨after, number, hafter, hreread.trans (if_congr (hr ▸ hyear) rfl rfl)⟩
  · have hmonth : q.now.toMonth.IsPlain ↔ 0 ≤ d.year := by
      rw [← hyear, ← hq]
      exact Iff.rfl
    exact (RunRequest.report_reread hl h).trans (if_congr hmonth rfl rfl)

private def yearZero : Date := (Date.of? 0 10 5).getD Moment.trial.date

private def beforeZero : Date := (Date.of? (-5) 10 5).getD Moment.trial.date

/-- A directory for flag files. -/
private def emptyFlags : Tree := ⟨[("flags", .directory [])]⟩

private def markIn (d : Date) : Mark := ⟨"1001", d.toMonth, .level .p100⟩

/-- A row about a step. -/
private def recordIn (d : Date) : HistoryRecord :=
  { id := none, run := "trial", month := d.toMonth, employee := "1001", kind := "planned_ordinary"
    payload := "", recordedAt := "" }

private def trialIn (d : Date) : RunRequest :=
  { RunRequest.trial 600 450 .threshold with now := { Moment.trial with date := d } }

/-- A month of year zero, which has no sign, is read again wherever it is kept. -/
theorem Date.toMonth_reread_sample :
    Month.parse "0000-10" = .ok yearZero.toMonth ∧
      (∃ u, FlagFiles.upsert ⟨"flags"⟩ (markIn yearZero) emptyFlags = (.ok (), u) ∧
        FlagFiles.read ⟨"flags"⟩ yearZero.toMonth u =
          .ok (MonthFile.empty.insert (markIn yearZero))) ∧
      (∃ after number,
        (Database.ready .empty).appendHistory (recordIn yearZero) = .ok after ∧
        after.historyOf "trial" = .ok [{ recordIn yearZero with id := some number }]) ∧
      ∃ rep l', (trialIn yearZero).on Backend.memory (.fresh .empty) = (.ok rep, l') ∧
        rep.entries.length = 1 ∧
        (Json.parse? rep.toJson.compact).bind Report.ofJson? = some rep.reread := by
  obtain ⟨hparse, hflags, hhistory, hreport⟩ := Date.toMonth_reread yearZero
  have hyear : 0 ≤ yearZero.year := by decide +kernel
  simp only [if_pos hyear] at hparse hflags hhistory hreport
  have htext : yearZero.toMonth.text = "0000-10" := by decide +kernel
  obtain ⟨rep, l', hrun, hlength⟩ := RunRequest.exists_of_map_on (b := Backend.memory)
    (q := trialIn yearZero) (l := .fresh .empty) (f := fun rep => rep.entries.length) (a := 1)
    (by decide +kernel)
  refine ⟨htext ▸ hparse, ?_, ?_, rep, l', hrun, hlength, ?_⟩
  · exact hflags ⟨"flags"⟩ (markIn yearZero) emptyFlags .empty rfl
      ⟨by decide +kernel, by decide +kernel⟩ (by decide +kernel) (by decide)
  · exact hhistory (.ready .empty) (recordIn yearZero) [] rfl rfl
  · exact hreport _ _ _ _ _ _ rfl (List.forall_mem_nil _) hrun

/-- A month before year zero is not read again. A mark of it is written into a file that is corrupt
from then on, and a row of it into a history that cannot be read from then on. -/
theorem Date.toMonth_not_read_back :
    beforeZero.toMonth.text = "-005-10" ∧
      Month.parse "-005-10" = .error (.badYear "-005-10") ∧
      (∃ u, FlagFiles.upsert ⟨"flags"⟩ (markIn beforeZero) emptyFlags = (.ok (), u) ∧
        FlagFiles.read ⟨"flags"⟩ beforeZero.toMonth u =
          .error (.corruptState ("flags/notified_-005-10.json: " ++ jsonComplaint))) ∧
      ∃ after, (Database.ready .empty).appendHistory (recordIn beforeZero) = .ok after ∧
        after.historyOf "trial" = .error (.badMonth (.badYear "-005-10")) := by
  refine ⟨by decide +kernel, by decide +kernel, ?_, _, rfl, by decide +kernel⟩
  have hempty : FlagFiles.readToAmend ⟨"flags"⟩ (markIn beforeZero).month emptyFlags =
      .ok .empty := by decide +kernel
  obtain ⟨u, hu, hread⟩ := FlagFiles.upsert_reread (e := markIn beforeZero)
    ⟨by decide +kernel, by decide +kernel⟩ hempty (by decide)
  have hpath : FlagFiles.pathText ⟨"flags"⟩ (markIn beforeZero).month =
      "flags/notified_-005-10.json" := by decide +kernel
  rw [if_neg (by decide +kernel), hpath] at hread
  exact ⟨u, hu, hread⟩

end OvertimeNotice
