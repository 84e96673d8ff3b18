import OvertimeNotice.Proofs.Plan.Readable
import OvertimeNotice.Proofs.Plan.Trail

/-!
# What the rows of the history say

A row of the history tells three things of an event: its kind, the employee it is about, and the
event itself, as text. The first two are those of the event that the text is read as. The text is
read as the event that was recorded, but for its percentage, unless the event is a warning about a
month whose own text does not read back.

* `Event.reread`, `Event.IsPlain`: what an event comes back as, and which ones come back.
* `Event.ofJson?_toJson`, `Event.ofJson?_toJson_of_not`: events and the values they are written as.
* `Event.ofText?_compact`: the text of an event.
* `Planner.run_history`: the rows of a run.
-/

namespace OvertimeNotice

open Json (Within)
open Json.Fields (required_self required_of_ne)

/-! ## Events and the values they are written as -/

instance : DecidablePred Warning.IsPlain
  | .stateReadFailed month _ => inferInstanceAs (Decidable month.IsPlain)
  | .stateWriteFailed .. | .recipientGap .. | .recordSkipped .. => isTrue trivial

theorem Warning.ofJson?_toJson_of_not {w : Within} {x : Warning} (hx : ¬x.IsPlain) :
    ofJson? w x.toJson = none := by
  cases x with
  | stateReadFailed month reason =>
    by_cases hreadable : (toJson (stateReadFailed month reason)).isReadable w = true
    · have htag : (toJson (stateReadFailed month reason)).tagged? "type" names w =
          some ("state_read_failed",
            .object [("month", month.toJson), ("reason", .string reason)]) := if_pos hreadable
      have hfields : (Json.object [("month", month.toJson), ("reason", .string reason)]).fields?
          ["month", "reason"] =
          some [("month", .given month.toJson), ("reason", .given (.string reason))] := rfl
      rw [ofJson?, htag]
      simp only [Option.bind_eq_bind, Option.bind_some, if_true, hfields, required_self,
        Month.ofJson?_toJson_of_not hx]
      rfl
    · have htag : (toJson (stateReadFailed month reason)).tagged? "type" names w = none :=
        if_neg hreadable
      rw [ofJson?, htag]
      rfl
  | _ => exact absurd trivial hx

namespace Event

/-- The percentage in the event. -/
def percent? : Event → Option Binary64
  | planned _ _ _ _ percent _ => some percent
  | notNotified _ percent _ => some percent
  | warned _ => none

/-- The event with its percentage replaced by what its text is read as. -/
def reread : Event → Event
  | planned employee kind mode severity percent recipients =>
    planned employee kind mode severity percent.reread recipients
  | notNotified employee percent reason => notNotified employee percent.reread reason
  | warned warning => warned warning

/-- The month in the event, if there is one, reads back. -/
def IsPlain : Event → Prop
  | warned warning => warning.IsPlain
  | _ => True

instance : DecidablePred IsPlain
  | warned warning => inferInstanceAs (Decidable warning.IsPlain)
  | planned .. | notNotified .. => isTrue trivial

theorem kindName_reread (e : Event) : e.reread.kindName = e.kindName := by
  cases e with
  | planned _ kind => cases kind <;> rfl
  | _ => rfl

theorem subject_reread (e : Event) : e.reread.subject = e.subject := by
  cases e <;> rfl

theorem isPlain_reread {e : Event} : e.reread.IsPlain ↔ e.IsPlain := by
  cases e <;> exact Iff.rfl

theorem reread_toJson (e : Event) : e.toJson.reread = e.reread.toJson := by
  cases e with
  | planned employee kind mode severity percent recipients =>
    have hkind : kind.toJson.reread = kind.toJson := rfl
    have hmode : mode.toJson.reread = mode.toJson := rfl
    have hseverity : severity.toJson.reread = severity.toJson := rfl
    simp only [toJson, Json.reread, Json.rereadMembers, hkind, hmode, hseverity,
      Recipients.reread_toJson]
    rfl
  | notNotified employee percent reason => cases reason <;> rfl
  | warned warning =>
    simp only [toJson, Json.reread, Json.rereadMembers, Warning.reread_toJson]
    rfl

theorem ordinary_toJson {e : Event} (h : ∀ p ∈ e.percent?, p.Moderate) : e.toJson.Ordinary := by
  cases e with
  | planned employee kind mode severity percent recipients =>
    refine .object ?_
    simp only [List.forall_mem_cons]
    exact ⟨.string _, .string _, .string _, .string _, .string _, .real (h percent rfl),
      recipients.ordinary_toJson, nofun⟩
  | notNotified employee percent reason =>
    refine .object ?_
    simp only [List.forall_mem_cons]
    exact ⟨.string _, .string _, .real (h percent rfl), .object reason.ordinary_members, nofun⟩
  | warned warning =>
    refine .object ?_
    simp only [List.forall_mem_cons]
    exact ⟨.string _, warning.ordinary_toJson, nofun⟩

/-- An event is not nested too deeply to be read whole, however many identities it names. -/
theorem isReadable_toJson (e : Event) : e.toJson.isReadable (.text 0) = true := by
  have htexts : ∀ l : List String, Json.readableItems 124 (l.map .string) = true := by
    intro l
    induction l with
    | nil => rfl
    | cons s l ih => exact ih
  cases e with
  | planned employee kind mode severity percent recipients =>
    have hrecipients : recipients.toJson.readable 126 = true := by
      obtain ⟨managers, own⟩ := recipients
      have hmanagers : (Json.texts managers.toList).readable 125 = true := htexts _
      cases own <;>
        simp only [Recipients.toJson, Json.readable, Json.readableMembers, hmanagers] <;> rfl
    simp only [toJson, Json.isReadable, Json.readable, Json.readableMembers, Json.maxDepth,
      hrecipients]
    rfl
  | notNotified employee percent reason => cases reason <;> rfl
  | warned warning =>
    cases warning with
    | stateWriteFailed employee marker reason => cases marker <;> rfl
    | _ => rfl

theorem ofJson?_toJson {w : Within} {e : Event} (h : e.toJson.isReadable w = true)
    (he : e.IsPlain) : ofJson? w e.toJson = some e := by
  cases e with
  | planned employee kind mode severity percent recipients =>
    have htag : (toJson (planned employee kind mode severity percent recipients)).tagged? "type"
        names w = some ("planned", .object [("employee_id", .string employee),
          ("kind", kind.toJson), ("mode", mode.toJson), ("severity", severity.toJson),
          ("percent", .real percent), ("recipients", recipients.toJson)]) := if_pos h
    have hfields : (Json.object [("employee_id", .string employee), ("kind", kind.toJson),
        ("mode", mode.toJson), ("severity", severity.toJson), ("percent", .real percent),
        ("recipients", recipients.toJson)]).fields?
          ["employee_id", "kind", "mode", "severity", "percent", "recipients"] =
        some [("employee_id", .given (.string employee)), ("kind", .given kind.toJson),
          ("mode", .given mode.toJson), ("severity", .given severity.toJson),
          ("percent", .given (.real percent)), ("recipients", .given recipients.toJson)] := rfl
    rw [ofJson?, htag]
    simp (disch := decide) only [Option.bind_eq_bind, Option.bind_some, if_true, hfields,
      required_self, required_of_ne, Json.text?, EntryKind.ofJson?_toJson, RunMode.ofJson?_toJson,
      Severity.ofJson?_toJson, Json.binary64?_real,
      Recipients.ofJson?_toJson]
    rfl
  | notNotified employee percent reason =>
    have htag : (toJson (notNotified employee percent reason)).tagged? "type" names w =
        some ("not_notified", .object [("employee_id", .string employee),
          ("percent", .real percent), ("reason", reason.toJson)]) := if_pos h
    have hfields : (Json.object [("employee_id", .string employee), ("percent", .real percent),
        ("reason", reason.toJson)]).fields? ["employee_id", "percent", "reason"] =
        some [("employee_id", .given (.string employee)), ("percent", .given (.real percent)),
          ("reason", .given reason.toJson)] := rfl
    have hreason : SuppressReason.ofJson? .tagged reason.toJson = some reason :=
      SuppressReason.ofJson?_toJson rfl
    rw [ofJson?, htag]
    simp (disch := decide) only [Option.bind_eq_bind, Option.bind_some, if_true, if_neg, hfields,
      required_self, required_of_ne, Json.text?, Json.binary64?_real,
      hreason]
    rfl
  | warned warning =>
    have htag : (toJson (warned warning)).tagged? "type" names w =
        some ("warning", .object [("warning", warning.toJson)]) := if_pos h
    have hfields : (Json.object [("warning", warning.toJson)]).fields? ["warning"] =
        some [("warning", .given warning.toJson)] := rfl
    have hwarning : Warning.ofJson? .tagged warning.toJson = some warning :=
      Warning.ofJson?_toJson rfl he
    rw [ofJson?, htag]
    simp (disch := decide) only [Option.bind_eq_bind, Option.bind_some, if_neg, hfields,
      required_self, hwarning]
    rfl

theorem ofJson?_toJson_of_not {w : Within} {e : Event} (h : e.toJson.isReadable w = true)
    (he : ¬e.IsPlain) : ofJson? w e.toJson = none := by
  cases e with
  | warned warning =>
    have htag : (toJson (warned warning)).tagged? "type" names w =
        some ("warning", .object [("warning", warning.toJson)]) := if_pos h
    have hfields : (Json.object [("warning", warning.toJson)]).fields? ["warning"] =
        some [("warning", .given warning.toJson)] := rfl
    rw [ofJson?, htag]
    simp (disch := decide) only [Option.bind_eq_bind, Option.bind_some, if_neg, hfields,
      required_self, Warning.ofJson?_toJson_of_not he]
    rfl
  | _ => exact absurd trivial he

/-- The text of an event is read as the event with its percentage read again, or as none. -/
theorem ofText?_compact {e : Event} (h : ∀ p ∈ e.percent?, p.Moderate) :
    (Json.parse? e.toJson.compact).bind (ofJson? (.text 0)) =
      if e.IsPlain then some e.reread else none := by
  rw [Json.parse?_compact (ordinary_toJson h), Option.bind_some, reread_toJson]
  have hreadable := e.reread.isReadable_toJson
  split
  · exact ofJson?_toJson hreadable (isPlain_reread.mpr ‹_›)
  · exact ofJson?_toJson_of_not hreadable (mt isPlain_reread.mp ‹_›)

end Event

/-! ## The rows of a run -/

namespace Report

variable {rep : Report}

/-- The percentages of the events are those of entries and suppressions. -/
theorem percent?_of_mem_events {filed : String × Event} (h : filed ∈ rep.events) :
    ∀ p ∈ filed.2.percent?, p ∈ rep.percents := by
  simp only [events, List.mem_append, List.mem_map] at h
  intro p hp
  rcases h with (⟨e, he, rfl⟩ | ⟨x, hx, rfl⟩) | ⟨w, -, rfl⟩
  · obtain rfl := Option.some.inj hp
    have hfigures : e.snapshot ∈ rep.figures := List.mem_append_left _ (List.mem_map_of_mem he)
    exact List.mem_append_left _ (List.mem_map_of_mem (f := Snapshot.percent) hfigures)
  · obtain rfl := Option.some.inj hp
    exact List.mem_append_right _ (List.mem_map_of_mem hx)
  · exact absurd hp (Option.not_mem_none p)

/-- An event that does not come back is a warning. -/
theorem warned_of_not_isPlain {filed : String × Event} (h : filed ∈ rep.events)
    (hf : ¬filed.2.IsPlain) : ∃ w ∈ rep.warnings, ¬w.IsPlain ∧ filed.2 = .warned w := by
  simp only [events, List.mem_append, List.mem_map] at h
  rcases h with (⟨e, -, rfl⟩ | ⟨x, -, rfl⟩) | ⟨w, hw, rfl⟩
  · exact absurd trivial hf
  · exact absurd trivial hf
  · exact ⟨w, hw, hf, rfl⟩

end Report

namespace Planner

variable {σ : Type} {b : Backend σ} {c : Config} {runId : String} {now : Moment}
  {decision : RunDecision} {rows : List RawRow} {l l' : Ledger σ} {rep : Report}

/-- **The rows of the history say what was decided**, if the year is not negative. There is one for
each event, in order. Its text is read as the event with its percentage read again, and its kind and
its employee are those of the event it is read as. Only a warning that was waiting in the ledger,
and is about a month that does not read back, has a text that is read as no event. -/
theorem run_history (hy : 0 ≤ now.date.year)
    (h : run b c runId now decision rows l = (.ok rep, l')) (recordedAt : String) :
    List.Forall₂ (fun record filed =>
        (Json.parse? record.payload).bind (Event.ofJson? (.text 0)) =
            (if filed.2.IsPlain then some filed.2.reread else none) ∧
          record.kind = filed.2.reread.kindName ∧ record.employee = filed.2.reread.subject)
        (rep.historyRecords recordedAt) rep.events ∧
      ∀ filed ∈ rep.events, ¬filed.2.IsPlain →
        ∃ w ∈ l.warnings, ¬w.IsPlain ∧ filed.2 = .warned w := by
  obtain ⟨-, hmoderate⟩ := figures_of_report hy h
  constructor
  · rw [Report.historyRecords, List.forall₂_map_left_iff, List.forall₂_same]
    intro filed hfiled
    refine ⟨Event.ofText?_compact fun p hp => ?_, ?_, ?_⟩
    · exact hmoderate p (Report.percent?_of_mem_events hfiled p hp)
    · rw [Event.kindName_reread]
    · rw [Event.subject_reread]
      exact Report.subject_of_mem_events hfiled
  · intro filed hfiled hplain
    obtain ⟨w, hw, hnot, heq⟩ := Report.warned_of_not_isPlain hfiled hplain
    exact ⟨w, (isPlain_or_pending hy h w hw).resolve_left hnot, hnot, heq⟩

/-- A run that neither reads nor writes its marks has rows of every kind, and all are read. -/
theorem run_history_memory :
    ∃ rep l', RunRequest.assorted.on Backend.memory
        (.fresh { MemoryMarks.empty with failRead := true, failWrite := true }) = (.ok rep, l') ∧
      (rep.historyRecords "2026-10-05 09:00").map (·.kind) = ["planned_ordinary",
        "planned_self_escalation", "not_notified", "warning", "warning", "warning", "warning",
        "warning", "warning", "warning"] ∧
      ∀ record ∈ rep.historyRecords "2026-10-05 09:00",
        ∃ e, (Json.parse? record.payload).bind (Event.ofJson? (.text 0)) = some e ∧
          record.kind = e.kindName ∧ record.employee = e.subject := by
  obtain ⟨rep, l', h, hkinds⟩ := RunRequest.exists_of_map_on
    (b := Backend.memory) (q := RunRequest.assorted)
    (l := .fresh { MemoryMarks.empty with failRead := true, failWrite := true })
    (f := fun rep => (rep.historyRecords "2026-10-05 09:00").map (·.kind))
    (a := ["planned_ordinary", "planned_self_escalation", "not_notified", "warning", "warning",
      "warning", "warning", "warning", "warning", "warning"]) (by decide +kernel)
  obtain ⟨hrows, hpending⟩ := run_history (by decide) h "2026-10-05 09:00"
  rw [Report.historyRecords, List.forall₂_map_left_iff, List.forall₂_same] at hrows
  refine ⟨rep, l', h, hkinds, List.forall_mem_map.mpr fun filed hfiled => ?_⟩
  have hplain : filed.2.IsPlain := by
    by_contra hnot
    obtain ⟨w, hw, -⟩ := hpending filed hfiled hnot
    exact nomatch hw
  obtain ⟨hread, hkind, hemployee⟩ := hrows filed hfiled
  exact ⟨filed.2.reread, hread.trans (if_pos hplain), hkind, hemployee⟩

/-- A run in a year before zero about two employees, the second of whom has a ceiling of zero. -/
private def brokenOff : RunRequest :=
  let q := RunRequest.trial 600 600 .threshold
  { q with
    config := { q.config with ceilings := TextMap.ofList [("400", 0)] }
    now := { Moment.trial with date := ⟨-5, 11, 5, by decide, by decide, by decide⟩ }
    rows := q.rows ++ q.rows.map fun row => { row with employee := "1002", department := "400" } }

/-- A run about nobody, in the year of the trials. -/
private def vacant : RunRequest := { RunRequest.trial 600 0 .threshold with rows := [] }

/-- A run breaks off before it hands out its warning about a month that does not read back. The next
one does, and has a row whose text is read as no event. -/
theorem history_not_read_back :
    let l := (brokenOff.on Backend.memory
      (.fresh { MemoryMarks.empty with failRead := true })).2
    0 ≤ vacant.now.date.year ∧
      ∃ rep l', vacant.on Backend.memory l = (.ok rep, l') ∧
        (rep.historyRecords "2026-10-05 09:00").map (fun record =>
            (Json.parse? record.payload).bind (Event.ofJson? (.text 0))) = [none] := by
  refine ⟨by decide, ?_⟩
  exact RunRequest.exists_of_map_on (by decide +kernel)

end Planner

end OvertimeNotice
