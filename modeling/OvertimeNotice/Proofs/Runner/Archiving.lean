import OvertimeNotice.Proofs.Plan.Intake
import OvertimeNotice.Proofs.Runner.Archive
import OvertimeNotice.Proofs.State.HistoryTable
import OvertimeNotice.Proofs.State.Serving

/-!
# Archiving

A report is archived in two places that have nothing to do with each other, unless the cache
directory is where the database keeps its files. Apart from that, all that happened is added to the history
whether the figures can be saved or not, and nothing that was there is touched.

* `Results.Spares`: saving figures keeps off the files of a database.
* `Serving.save`, `Serving.archiveHistory`: the two halves on a database that takes calls.
* `World.archive_appends`: what archiving a report adds.
* `World.archive_over_database`: what becomes of it where the database cannot be used.
-/

namespace OvertimeNotice

open World (journalEnding logEnding lockEnding)

/-- The endings of what is looked for beside the file of a database before every call. -/
def Connection.watched (c : Connection) : List String :=
  if c.log = .closed then
    if c.name.hasLockDirectory then [journalEnding, logEnding, lockEnding]
    else [journalEnding, logEnding]
  else []

/-! ## Saving beside a database -/

namespace Results

variable {cacheDir ending : String} {month : Month} {c : Connection}

/-- The figures of a month go to another file than that of the database, and no directory for them
is made where the database looks for something else. -/
def Spares (cacheDir : String) (month : Month) (c : Connection) : Prop :=
  ∀ home ∈ c.home?, (path cacheDir month).place ≠ home ∧
    ∀ ending ∈ c.watched, home.beside ending ∉ (Path.ofText cacheDir).passes

theorem getLast?_fileName (month : Month) : (fileName month).toList.getLast? = some 'n' := by
  unfold fileName
  rw [String.toList_append, List.getLast?_append]
  rfl

/-- The file of a month is none of those beside a database. -/
theorem place_ne_beside (h : ending ∈ c.watched) (cacheDir : String) (month : Month)
    (home : Place) : (path cacheDir month).place ≠ home.beside ending := by
  have hlast : ∃ l, ending.toList.getLast? = some l ∧ l ≠ 'n' := by
    have hmem : ending = journalEnding ∨ ending = logEnding ∨ ending = lockEnding := by
      unfold Connection.watched at h
      split at h
      · split at h
        · simpa using h
        · exact (List.mem_pair.mp h).imp_right .inl
      · exact nomatch h
    rcases hmem with rfl | rfl | rfl
    · exact ⟨'l', by decide, by decide⟩
    · exact ⟨'l', by decide, by decide⟩
    · exact ⟨'k', by decide, by decide⟩
  obtain ⟨l, hl, hne⟩ := hlast
  intro he
  rw [place_path] at he
  cases home with
  | nil => exact nomatch he
  | cons name rest =>
    obtain ⟨hname, -⟩ := List.cons_eq_cons.mp he
    have hends := congrArg (fun s => s.toList.getLast?) hname
    simp only [getLast?_fileName, String.toList_append, List.getLast?_append, hl, Option.some_or,
      Option.some.injEq] at hends
    exact hne hends.symm

theorem save_error {t : Tree} {f : FileFault} (snapshots : List Snapshot)
    (h : (t.makeDirectories (Path.ofText cacheDir)).1 = .error f) :
    (save cacheDir month snapshots t).1 = .error f := by
  unfold save
  rcases hm : t.makeDirectories (Path.ofText cacheDir) with ⟨r, u⟩
  rw [hm] at h
  dsimp only at h
  rw [h]

end Results

/-! ## The rows of a report -/

theorem Report.of_mem_historyRecords {report : Report} {recordedAt : String} {r : HistoryRecord}
    (h : r ∈ report.historyRecords recordedAt) :
    r.id = none ∧ r.run = report.runId ∧ r.month = report.month := by
  obtain ⟨e, -, rfl⟩ := List.mem_map.mp h
  exact ⟨rfl, rfl, rfl⟩

namespace World

open HistoryRecord (Earlier numbered)

variable {w v : World} {d : Database} {tables : Tables} {report : Report} {cacheDir : String}
  {month : Month}

/-- The history of a run, as the database answers. -/
def history (run : String) (w : World) : Except Failure (List HistoryRecord) :=
  (call (read fun d => d.historyOf run) w).1

/-- The history has the records in addition, as the last ones of their run and numbered on from all
that was there. No other run is affected. -/
structure Appends (run : String) (records : List HistoryRecord) (w v : World) : Prop where
  own : ∃ before added, w.history run = .ok before ∧ v.history run = .ok (before ++ added) ∧
    added.map (fun r => { r with id := none }) = records ∧ added.Pairwise Earlier ∧
    ∀ other earlier, w.history other = .ok earlier → ∀ a ∈ earlier, ∀ b ∈ added, Earlier a b
  others : ∀ other ≠ run, ∃ rows, w.history other = .ok rows ∧ v.history other = .ok rows

namespace Serving

/-- Saving figures elsewhere leaves a database as it is. -/
theorem save (h : Serving d w) (hs : Results.Spares cacheDir month w.connection)
    (snapshots : List Snapshot) :
    Serving d { w with files := (Results.save cacheDir month snapshots w.files).2 } := by
  cases h with
  | logged h writable =>
    obtain ⟨hfile, -⟩ := hs _ h.place
    obtain ⟨d₀, b, hf⟩ := h.file
    have hkept := Results.node?_save snapshots hfile.symm fun _ => by rw [hf]; simp
    exact .logged ⟨h.place, h.log, h.content, d₀, b, hkept.trans hf⟩ writable
  | @unlogged home h room writable =>
    obtain ⟨hfile, hbeside⟩ := hs _ h.place
    have hkept := Results.node?_save snapshots hfile.symm fun _ => by rw [h.file]; simp
    have hnone : ∀ ending ∈ w.connection.watched,
        (Results.save cacheDir month snapshots w.files).2.node? (home.beside ending) =
          w.files.node? (home.beside ending) := fun ending he =>
      Results.node?_save snapshots (Results.place_ne_beside he cacheDir month home).symm
        fun hp => absurd hp (hbeside ending he)
    simp only [Connection.watched, h.log, if_true] at hnone
    refine .unlogged ⟨h.place, h.log, h.steady, h.content, hkept.trans h.file, ?_, ?_, ?_⟩ room
      writable
    · exact (hnone _ (by split <;> simp)).trans h.noJournal
    · exact (hnone _ (by split <;> simp)).trans h.noLog
    · intro hl
      obtain ⟨hlock, hfits⟩ := h.unlocked hl
      exact ⟨(hnone _ (by simp [hl])).trans hlock, hfits⟩
  | apart place content writable => exact .apart place content writable

theorem history_eq (h : Serving (.ready tables) w) (hd : tables.Dated) (run : String) :
    w.history run = .ok (tables.recordsOf run) := by
  rw [history, h.call_read (Tables.historyOf_ready hd run)]

theorem append_eq (h : Serving (.ready tables) w) (r : HistoryRecord) :
    ∃ v, call (update fun d => d.appendHistory r) w = (.ok (), v) ∧
      Serving (.ready (tables.appended [r])) v :=
  h.call_change (f := fun d => (d.appendHistory r).map fun d' => ((), d')) rfl

/-- No row fails, and all are there. -/
theorem archiveHistory (h : Serving (.ready tables) w) (records : List HistoryRecord) :
    ∃ v, World.archiveHistory records w = ([], v) ∧
      Serving (.ready (tables.appended records)) v := by
  unfold World.archiveHistory
  induction records generalizing tables w with
  | nil => exact ⟨w, rfl, by simpa [Tables.appended] using h⟩
  | cons r records ih =>
    obtain ⟨u, hu, h'⟩ := h.append_eq r
    obtain ⟨v, hv, hall⟩ := ih h'
    rw [List.foldl_cons, hu, Tables.appended_cons]
    exact ⟨v, hv, hall⟩

/-- More rows of one run in the table are more history of that run. -/
theorem appends (h : Serving (.ready tables) w) (hd : tables.Dated) (hm : report.month.IsPlain)
    {recordedAt : String}
    (hv : Serving (.ready (tables.appended (report.historyRecords recordedAt))) v) :
    Appends report.runId (report.historyRecords recordedAt) w v := by
  have hrecord := @Report.of_mem_historyRecords report recordedAt
  have hmonths : ∀ r ∈ report.historyRecords recordedAt, r.month.IsPlain := fun r hr => by
    rwa [(hrecord hr).2.2]
  have hnumbered : (numbered (tables.history.length + 1)
      (report.historyRecords recordedAt)).map (fun r => { r with id := none }) =
        report.historyRecords recordedAt :=
    HistoryRecord.map_numbered fun r hr => (hrecord hr).1
  have hrun : ∀ r ∈ numbered (tables.history.length + 1) (report.historyRecords recordedAt),
      r.run = report.runId := fun r hr =>
    (hrecord (r := { r with id := none }) (hnumbered ▸ List.mem_map_of_mem hr)).2.1
  have hafter : ∀ run, v.history run = .ok (tables.recordsOf run ++
      (numbered (tables.history.length + 1) (report.historyRecords recordedAt)).filter
        fun r => r.run == run) := fun run => by
    rw [hv.history_eq (hd.appended hmonths), Tables.recordsOf_appended hmonths]
  constructor
  case own =>
    refine ⟨_, _, h.history_eq hd _, (hafter _).trans ?_, hnumbered,
      HistoryRecord.pairwise_numbered _ _, ?_⟩
    · rw [List.filter_eq_self.mpr fun r hr => beq_iff_eq.mpr (hrun r hr)]
    · intro other earlier hearlier a ha b hb
      rw [h.history_eq hd, Except.ok.injEq] at hearlier
      subst hearlier
      obtain ⟨i, hi, hle⟩ := Tables.id_of_mem_recordsOf ha
      obtain ⟨j, hj, hlt⟩ := HistoryRecord.id_of_mem_numbered hb
      exact ⟨i, j, hi, hj, by omega⟩
  case others =>
    intro other hne
    refine ⟨_, h.history_eq hd other, (hafter other).trans ?_⟩
    rw [List.filter_eq_nil_iff.mpr, List.append_nil]
    intro r hr
    rw [hrun r hr, beq_iff_eq]
    exact hne.symm

end Serving

/-- **Archiving a report adds it to the history, whole and last.** Its events come after the history
of its run in their order and with numbers of their own, whether its figures can be saved or not;
the other runs, the table of runs and the marks are as they were. The one thing that can fail is
saving the figures, which is then reported once. -/
theorem archive_appends (h : Serving (.ready tables) w) (hdated : tables.Dated)
    (hmonth : report.month.IsPlain)
    (hspares : Results.Spares cacheDir report.month w.connection) (recordedAt : String) :
    ∃ failures v tables', archive report cacheDir recordedAt w = (failures, v) ∧
      ((Results.save cacheDir report.month report.evaluated w.files).1 = .ok () →
        failures = []) ∧
      (∀ f, (Results.save cacheDir report.month report.evaluated w.files).1 = .error f →
        failures = ["results cache: " ++ (Failure.file f).message]) ∧
      Appends report.runId (report.historyRecords recordedAt) w v ∧
      Serving (.ready tables') v ∧ tables'.Dated ∧ tables'.runs = tables.runs ∧
      tables'.marks = tables.marks := by
  obtain ⟨v, hv, h'⟩ :=
    (h.save hspares report.evaluated).archiveHistory (report.historyRecords recordedAt)
  have hdated' : (tables.appended (report.historyRecords recordedAt)).Dated :=
    hdated.appended fun r hr => by rwa [(Report.of_mem_historyRecords hr).2.2]
  refine ⟨_, v, _, by rw [archive, hv, List.append_nil], fun hok => by rw [hok],
    fun f hf => by rw [hf], h.appends hdated hmonth h', h', hdated', rfl, rfl⟩

private def archivedReport : Report :=
  { runId := "run-1", month := Moment.trial.toMonth, decision := ⟨.threshold, none⟩, entries := []
    suppressed := [⟨"1001", .zero, .belowThreshold⟩], evaluated := [], warnings := [] }

/-- A file is in the way of the cache directory. -/
private def blockedCache : Tree := ⟨[("cache", .file .nothing)]⟩

theorem archive_appends_blocked : ∃ w w' v, connect? blockedCache "overtime.db" = .ok w ∧
    call migrate w = (.ok (), w') ∧
    archive archivedReport "cache" "2026-10-05 09:00" w' =
      (["results cache: I/O error: File exists (os error 17)"], v) ∧
    Appends "run-1" (archivedReport.historyRecords "2026-10-05 09:00") w' v := by
  have hrests : blockedCache.Rests ["overtime.db"] .blank := ⟨.inr ⟨rfl, .inl rfl⟩, rfl, rfl, rfl⟩
  have hnamed : NamesFile "overtime.db" := ⟨by decide +kernel, by decide⟩
  have hreaches : Reaches blockedCache "overtime.db" ["overtime.db"] :=
    ⟨by decide +kernel, by decide +kernel⟩
  obtain ⟨w, w', tables, hw, hw', hd, huse, ha⟩ :=
    connect_of_reaches hnamed hrests hreaches (by decide)
  rw [Database.migrate, Database.ready.injEq] at hd
  subst hd
  have hspares : Results.Spares "cache" archivedReport.month w'.connection := by
    intro home hhome
    rw [huse.place, Option.mem_some_iff] at hhome
    subst hhome
    exact ⟨by decide, by simp [Connection.watched, huse.log]⟩
  have hblocked : (w'.files.makeDirectories (Path.ofText "cache")).1 = .error .occupied :=
    (Tree.makeDirectories_congr ha (by decide)).1.trans (by decide +kernel)
  obtain ⟨failures, v, -, harchive, -, hfailures, happends, -⟩ :=
    archive_appends huse.serving (by simp [Tables.Dated, Tables.empty]) (by decide) hspares
      "2026-10-05 09:00"
  rw [hfailures _ (Results.save_error _ hblocked)] at harchive
  exact ⟨w, w', v, hw, hw', harchive, happends⟩

/-! ## Where the database cannot be used -/

/-- What is answered around the first archive on a database. -/
private structure FirstArchive where
  migrated : Except Failure Unit
  before : Except Failure (List HistoryRecord)
  saved : Except FileFault Unit
  failures : List String
  after : Except Failure (List HistoryRecord)
deriving DecidableEq

private def firstArchive (t : Tree) (text cacheDir : String) :
    Except DatabaseFault FirstArchive :=
  (connect? t text).map fun w =>
    let made := call migrate w
    let archived := archive archivedReport cacheDir "2026-10-05 09:00" made.2
    { migrated := made.1
      before := made.2.history archivedReport.runId
      saved := (Results.save cacheDir archivedReport.month archivedReport.evaluated made.2.files).1
      failures := archived.1
      after := archived.2.history archivedReport.runId }

/-- Figures that are saved in the file of a database take the database away, and a directory for
them where its journal belongs stops every change. What can only be read takes no rows either. -/
theorem archive_over_database :
    firstArchive ⟨[("cache", .directory [])]⟩
        "file:cache/overtime_result_202610.json?vfs=unix-none" "cache" =
      .ok {
        migrated := .ok (), before := .ok [], saved := .ok ()
        failures := ["history 1001: Database error: file is not a database"]
        after := .error (.database .notDatabase) } ∧
    firstArchive .empty "file:s.db?vfs=unix-none" "s.db-journal" =
      .ok {
        migrated := .ok (), before := .ok [], saved := .ok ()
        failures := ["history 1001: Database error: disk I/O error"]
        after := .error (.database .unreadable) } ∧
    firstArchive ⟨[("s.db", .file (.database (.ready .empty) false))]⟩ "file:s.db?mode=ro"
        "cache" =
      .ok {
        migrated := .ok (), before := .ok [], saved := .ok ()
        failures := ["history 1001: Database error: attempt to write a readonly database"]
        after := .ok [] } := by
  decide +kernel

end World

end OvertimeNotice
