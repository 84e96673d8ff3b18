import OvertimeNotice.Plan.Report
import OvertimeNotice.Proofs.Calendar.MonthText
import OvertimeNotice.Proofs.Json.Records

/-!
# Reports and the values they are written as

Every part of a report is read from the value that it is written as. Two things could stand in the
way: a month whose text does not read back, and a difference that does not fit 64 bits.

* `Month.IsPlain`, `Snapshot.IsPlain`, `Warning.IsPlain`, `Report.IsPlain`: neither does.
* `PlanEntry.ofJson?_toJson`, `Suppressed.ofJson?_toJson`, `Warning.ofJson?_toJson`: the parts.
* `Report.ofJson?_toJson`: the whole.
-/

namespace OvertimeNotice

open Json (Within)
open Json.Fields (required_self required_of_ne optional_self optional_of_ne)

/-! ## Names -/

theorem Severity.ofJson?_toJson (w : Within) (s : Severity) : ofJson? w s.toJson = some s := by
  cases s <;> rfl

theorem RunMode.ofJson?_toJson (w : Within) (m : RunMode) : ofJson? w m.toJson = some m := by
  cases m <;> rfl

theorem ForceReason.ofJson?_toJson (w : Within) (r : ForceReason) :
    ofJson? w r.toJson = some r := by
  cases r <;> rfl

theorem EntryKind.ofJson?_toJson (w : Within) (k : EntryKind) : ofJson? w k.toJson = some k := by
  cases k <;> rfl

theorem Marker.ofJson?_toJson (w : Within) (k : Marker) : ofJson? w k.toJson = some k := by
  cases k with
  | level s => exact congrArg (Option.map level) (Severity.ofJson?_toJson w s)
  | selfEscalation => rfl

/-! ## Records -/

theorem RunDecision.ofJson?_toJson (w : Within) (d : RunDecision) :
    ofJson? w d.toJson = some d := by
  have hfields : d.toJson.fields? ["mode", "reason"] = some [("mode", .given d.mode.toJson),
      ("reason", .given (.nullable ForceReason.toJson d.reason))] := rfl
  have hreason : (Json.nullable ForceReason.toJson d.reason).orNull? (ForceReason.ofJson? w) =
      some d.reason := Json.orNull?_nullable (fun r _ => r.ofJson?_toJson w) fun _ _ => nofun
  rw [ofJson?, hfields, Option.bind_eq_bind, Option.bind_some]
  simp (disch := decide) only [required_self, optional_self,
    optional_of_ne, RunMode.ofJson?_toJson, hreason]
  rfl

theorem Recipients.ofJson?_toJson (r : Recipients) : ofJson? r.toJson = some r := by
  have hfields : r.toJson.fields? ["managers", "employee"] =
      some [("managers", .given (.texts r.managers.toList)),
        ("employee", .given (.nullable .string r.employee))] := rfl
  have hemployee : (Json.nullable Json.string r.employee).orNull? Json.text? = some r.employee :=
    Json.orNull?_nullable (fun _ _ => rfl) fun _ _ => nofun
  rw [ofJson?, hfields, Option.bind_eq_bind, Option.bind_some]
  simp (disch := decide) only [required_self, optional_self,
    optional_of_ne, Json.textSet?_texts, hemployee]
  rfl

/-- The month reads back, and the difference fits 64 bits. -/
structure Snapshot.IsPlain (s : Snapshot) : Prop where
  month : s.month.IsPlain
  low : -2 ^ 63 ≤ s.remaining
  high : s.remaining < 2 ^ 63

/-- The difference fits 64 bits, so that the figures can be written at least. -/
def Snapshot.Fits (s : Snapshot) : Prop := -2 ^ 63 ≤ s.remaining ∧ s.remaining < 2 ^ 63

theorem Snapshot.IsPlain.fits {s : Snapshot} (h : s.IsPlain) : s.Fits := ⟨h.low, h.high⟩

theorem Snapshot.ofJson?_toJson (w : Within) {s : Snapshot} (h : s.IsPlain) :
    ofJson? w s.toJson = some s := by
  have hfields : s.toJson.fields? ["employee_id", "name", "department", "month", "minutes",
      "previous_minutes", "ceiling_minutes", "percent", "severity", "percent_vs_last",
      "remaining_minutes"] =
      some [("employee_id", .given (.string s.employee)), ("name", .given (.string s.name)),
        ("department", .given (.string s.department)), ("month", .given s.month.toJson),
        ("minutes", .given (.nat s.minutes.toNat)),
        ("previous_minutes", .given (.nullable (fun n => .nat n.toNat) s.previousMinutes)),
        ("ceiling_minutes", .given (.nat s.ceiling.toNat)), ("percent", .given (.real s.percent)),
        ("severity", .given s.severity.toJson),
        ("percent_vs_last", .given (.nat s.percentVsLast.toNat)),
        ("remaining_minutes", .given (.number (.integer s.remaining)))] := rfl
  have hprevious : (Json.nullable (fun n => .nat n.toNat) s.previousMinutes).orNull? Json.word? =
      some s.previousMinutes :=
    Json.orNull?_nullable (fun n _ => Json.word?_nat n) fun _ _ => nofun
  rw [ofJson?, hfields, Option.bind_eq_bind, Option.bind_some]
  simp (disch := decide) only [required_self, required_of_ne,
    optional_self, optional_of_ne, Json.text?, Json.binary64?_real, Json.word?_nat,
    Month.ofJson?_toJson h.month, Severity.ofJson?_toJson, hprevious,
    Json.int64?_integer h.low h.high]
  rfl

theorem PlanEntry.ofJson?_toJson (w : Within) {e : PlanEntry} (h : e.snapshot.IsPlain) :
    ofJson? w e.toJson = some e := by
  have hfields : e.toJson.fields? ["kind", "mode", "recipients", "snapshot", "recipient_gap",
      "state_persisted"] =
      some [("kind", .given e.kind.toJson), ("mode", .given e.mode.toJson),
        ("recipients", .given e.recipients.toJson), ("snapshot", .given e.snapshot.toJson),
        ("recipient_gap", .given (.bool e.recipientGap)),
        ("state_persisted", .given (.bool e.statePersisted))] := rfl
  rw [ofJson?, hfields, Option.bind_eq_bind, Option.bind_some]
  simp (disch := decide) only [required_self, required_of_ne,
    EntryKind.ofJson?_toJson, RunMode.ofJson?_toJson, Recipients.ofJson?_toJson,
    Snapshot.ofJson?_toJson w.inner h, Json.bool?]
  rfl

/-! ## Tagged values -/

theorem SuppressReason.ofJson?_toJson {w : Within} {r : SuppressReason}
    (h : r.toJson.isReadable w = true) : ofJson? w r.toJson = some r := by
  cases r with
  | belowThreshold =>
    have htag : (toJson belowThreshold).tagged? "reason" ["below_threshold", "already_notified"] w =
        some ("below_threshold", .object []) := if_pos h
    rw [ofJson?, htag]
    rfl
  | alreadyNotified s =>
    have htag : (toJson (alreadyNotified s)).tagged? "reason"
        ["below_threshold", "already_notified"] w =
        some ("already_notified", .object [("severity", s.toJson)]) := if_pos h
    have hfields : (Json.object [("severity", s.toJson)]).fields? ["severity"] =
      some [("severity", .given s.toJson)] := rfl
    rw [ofJson?, htag]
    simp only [Option.bind_eq_bind, Option.bind_some, hfields, required_self,
      Severity.ofJson?_toJson]
    rfl

/-- The reason is read from what the fields leave over. -/
theorem Suppressed.ofJson?_toJson {w : Within} {s : Suppressed}
    (h : s.toJson.isReadable w = true) : ofJson? w s.toJson = some s := by
  have hfields : s.toJson.memberFields? ["employee_id", "percent"] =
      some [("employee_id", .given (.string s.employee)),
        ("percent", .given (.real s.percent))] := by
    cases s with
    | mk employee percent reason => cases reason <;> rfl
  have hothers : ([("employee_id", Json.string s.employee), ("percent", .real s.percent)] ++
      s.reason.members).filter (fun m => !(["employee_id", "percent"].contains m.1)) =
      s.reason.members := by
    cases s.reason <;> rfl
  have hreason : SuppressReason.ofJson? .tagged (.object s.reason.members) = some s.reason :=
    SuppressReason.ofJson?_toJson rfl
  rw [ofJson?]
  simp (disch := decide) only [hfields, Option.bind_eq_bind, Option.bind_some, required_self,
    required_of_ne, Json.text?, Json.binary64?_real]
  rw [toJson] at h ⊢
  simp only [h, if_true, hothers, hreason, Option.bind_some]
  rfl

/-- The month of a warning reads back. -/
def Warning.IsPlain : Warning → Prop
  | stateReadFailed month _ => month.IsPlain
  | _ => True

theorem Warning.ofJson?_toJson {w : Within} {x : Warning} (h : x.toJson.isReadable w = true)
    (hx : x.IsPlain) : ofJson? w x.toJson = some x := by
  cases x with
  | stateReadFailed month reason =>
    have htag : (toJson (stateReadFailed month reason)).tagged? "type" names w =
        some ("state_read_failed",
          .object [("month", month.toJson), ("reason", .string reason)]) := if_pos h
    have hfields : (Json.object [("month", month.toJson), ("reason", .string reason)]).fields?
        ["month", "reason"] =
        some [("month", .given month.toJson), ("reason", .given (.string reason))] := rfl
    rw [ofJson?, htag]
    simp (disch := decide) only [Option.bind_eq_bind, Option.bind_some, if_true, hfields,
      required_self, required_of_ne, Month.ofJson?_toJson hx, Json.text?]
    rfl
  | stateWriteFailed employee marker reason =>
    have htag : (toJson (stateWriteFailed employee marker reason)).tagged? "type" names w =
        some ("state_write_failed", .object [("employee_id", .string employee),
          ("marker", marker.toJson), ("reason", .string reason)]) := if_pos h
    have hfields : (Json.object [("employee_id", .string employee), ("marker", marker.toJson),
        ("reason", .string reason)]).fields? ["employee_id", "marker", "reason"] =
        some [("employee_id", .given (.string employee)), ("marker", .given marker.toJson),
          ("reason", .given (.string reason))] := rfl
    rw [ofJson?, htag]
    simp (disch := decide) only [Option.bind_eq_bind, Option.bind_some, if_true, if_neg, hfields,
      required_self, required_of_ne, Marker.ofJson?_toJson, Json.text?]
    rfl
  | recipientGap employee department =>
    have htag : (toJson (recipientGap employee department)).tagged? "type" names w =
        some ("recipient_gap", .object [("employee_id", .string employee),
          ("department", .string department)]) := if_pos h
    have hfields : (Json.object [("employee_id", .string employee),
        ("department", .string department)]).fields? ["employee_id", "department"] =
        some [("employee_id", .given (.string employee)),
          ("department", .given (.string department))] := rfl
    rw [ofJson?, htag]
    simp (disch := decide) only [Option.bind_eq_bind, Option.bind_some, if_true, if_neg, hfields,
      required_self, required_of_ne, Json.text?]
    rfl
  | recordSkipped employee reason =>
    have htag : (toJson (recordSkipped employee reason)).tagged? "type" names w =
        some ("record_skipped", .object [("employee_id", .string employee),
          ("reason", .string reason)]) := if_pos h
    have hfields : (Json.object [("employee_id", .string employee),
        ("reason", .string reason)]).fields? ["employee_id", "reason"] =
        some [("employee_id", .given (.string employee)),
          ("reason", .given (.string reason))] := rfl
    rw [ofJson?, htag]
    simp (disch := decide) only [Option.bind_eq_bind, Option.bind_some, if_neg, hfields,
      required_self, required_of_ne, Json.text?]
    rfl

/-! ## Reports -/

/-- The figures in a report: those of its entries and those of everyone evaluated. -/
def Report.figures (r : Report) : List Snapshot := r.entries.map (·.snapshot) ++ r.evaluated

/-- Every part of the report reads back. -/
structure Report.IsPlain (r : Report) : Prop where
  month : r.month.IsPlain
  figures : ∀ s ∈ r.figures, s.IsPlain
  warnings : ∀ x ∈ r.warnings, x.IsPlain

theorem Suppressed.isReadable_toJson (s : Suppressed) : s.toJson.isReadable (.text 2) = true := by
  cases s with
  | mk employee percent reason => cases reason <;> rfl

theorem Warning.isReadable_toJson (x : Warning) : x.toJson.isReadable (.text 2) = true := by
  cases x with
  | stateWriteFailed employee marker reason => cases marker <;> rfl
  | _ => rfl

theorem Report.fields?_toJson (r : Report) :
    r.toJson.fields? ["run_id", "month", "decision", "entries", "suppressed", "evaluated",
      "warnings"] =
      some [("run_id", .given (.string r.runId)), ("month", .given r.month.toJson),
        ("decision", .given r.decision.toJson),
        ("entries", .given (.array (r.entries.map PlanEntry.toJson))),
        ("suppressed", .given (.array (r.suppressed.map Suppressed.toJson))),
        ("evaluated", .given (.array (r.evaluated.map Snapshot.toJson))),
        ("warnings", .given (.array (r.warnings.map Warning.toJson)))] := rfl

/-- A report is read from the value that it is written as. -/
theorem Report.ofJson?_toJson {r : Report} (h : r.IsPlain) : ofJson? r.toJson = some r := by
  have hentries := Json.list?_map fun e he =>
    PlanEntry.ofJson?_toJson (.text 2)
      (h.figures _ (List.mem_append_left _ (List.mem_map_of_mem he)))
  have hsuppressed := Json.list?_map (l := r.suppressed) fun s _ =>
    Suppressed.ofJson?_toJson s.isReadable_toJson
  have hevaluated := Json.list?_map fun s hs =>
    Snapshot.ofJson?_toJson (.text 2) (h.figures s (List.mem_append_right _ hs))
  have hwarnings := Json.list?_map fun x hx =>
    Warning.ofJson?_toJson x.isReadable_toJson (h.warnings x hx)
  rw [ofJson?, fields?_toJson, Option.bind_eq_bind, Option.bind_some]
  simp (disch := decide) only [required_self, required_of_ne,
    Json.text?, Month.ofJson?_toJson h.month, RunDecision.ofJson?_toJson, hentries, hsuppressed,
    hevaluated, hwarnings]
  rfl

/-- A report is read as a whole: not at all if its month does not read back. -/
theorem Report.ofJson?_toJson_of_not {r : Report} (h : ¬r.month.IsPlain) :
    ofJson? r.toJson = none := by
  rw [ofJson?, fields?_toJson, Option.bind_eq_bind, Option.bind_some]
  simp (disch := decide) only [required_self, required_of_ne, Json.text?,
    Month.ofJson?_toJson_of_not h]
  rfl

end OvertimeNotice
