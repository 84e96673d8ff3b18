import OvertimeNotice.Proofs.Json.Compact
import OvertimeNotice.Proofs.Plan.Codec

/-!
# Reports that are written and read again

A report is read from its own text, but for its percentages: each comes back as what its shortest
digits are read as.

* `Report.reread`: the report with every percentage read again.
* `Report.reread_toJson`: so it is written as the first report's value with its numbers read again.
* `Report.ordinary_toJson`: every part of a report has a text.
* `Report.parse?_of_fits`, `Report.ofText?_compact`: the text of a report;
  `PlanEntry.ofJson?_compact`: that of an entry.
-/

namespace OvertimeNotice

/-! ## Reading again -/

def Snapshot.reread (s : Snapshot) : Snapshot := { s with percent := s.percent.reread }

def PlanEntry.reread (e : PlanEntry) : PlanEntry := { e with snapshot := e.snapshot.reread }

def Suppressed.reread (s : Suppressed) : Suppressed := { s with percent := s.percent.reread }

namespace Report

/-- The report with every percentage replaced by what its text is read as. -/
def reread (r : Report) : Report :=
  { r with
    entries := r.entries.map PlanEntry.reread
    suppressed := r.suppressed.map Suppressed.reread
    evaluated := r.evaluated.map Snapshot.reread }

/-- Every percentage in the report. -/
def percents (r : Report) : List Binary64 :=
  r.figures.map (·.percent) ++ r.suppressed.map (·.percent)

end Report

namespace Json

theorem reread_array (items : List Json) : (array items).reread = .array (items.map reread) := by
  rw [reread, rereadItems_eq]

theorem reread_map {α : Type} {write : α → Json} (change : α → α)
    (h : ∀ a, (write a).reread = write (change a)) (l : List α) :
    (array (l.map write)).reread = .array ((l.map change).map write) := by
  rw [reread_array, List.map_map, List.map_map]
  exact congrArg array (List.map_congr_left fun a _ => h a)

end Json

theorem Snapshot.reread_toJson (s : Snapshot) : s.toJson.reread = s.reread.toJson := by
  obtain ⟨employee, name, department, month, minutes, previous, ceiling, percent, severity, versus,
    remaining⟩ := s
  cases previous <;> rfl

theorem Recipients.reread_toJson (r : Recipients) : r.toJson.reread = r.toJson := by
  obtain ⟨managers, employee⟩ := r
  have hmanagers : (Json.texts managers.toList).reread = .texts managers.toList := by
    rw [Json.texts, Json.reread_map id fun _ => rfl, List.map_id]
  rw [toJson, Json.reread, Json.rereadMembers, hmanagers]
  cases employee <;> rfl

theorem PlanEntry.reread_toJson (e : PlanEntry) : e.toJson.reread = e.reread.toJson := by
  have hkind : e.kind.toJson.reread = e.kind.toJson := rfl
  have hmode : e.mode.toJson.reread = e.mode.toJson := rfl
  simp only [toJson, Json.reread, Json.rereadMembers, hkind, hmode, Recipients.reread_toJson,
    Snapshot.reread_toJson]
  rfl

theorem Suppressed.reread_toJson (s : Suppressed) : s.toJson.reread = s.reread.toJson := by
  obtain ⟨employee, percent, reason⟩ := s
  cases reason <;> rfl

theorem Warning.reread_toJson (w : Warning) : w.toJson.reread = w.toJson := by
  cases w with
  | stateWriteFailed employee marker reason => cases marker <;> rfl
  | _ => rfl

theorem RunDecision.reread_toJson (d : RunDecision) : d.toJson.reread = d.toJson := by
  obtain ⟨mode, reason⟩ := d
  cases reason <;> rfl

theorem Report.reread_toJson (r : Report) : r.toJson.reread = r.reread.toJson := by
  have hrunId : (Json.string r.runId).reread = .string r.runId := rfl
  have hmonth : r.month.toJson.reread = r.month.toJson := rfl
  have hwarnings : (Json.array (r.warnings.map Warning.toJson)).reread =
      .array (r.warnings.map Warning.toJson) := by
    rw [Json.reread_map id Warning.reread_toJson, List.map_id]
  rw [toJson, Json.reread]
  simp only [Json.rereadMembers, hrunId, hmonth, RunDecision.reread_toJson,
    Json.reread_map PlanEntry.reread PlanEntry.reread_toJson,
    Json.reread_map Suppressed.reread Suppressed.reread_toJson,
    Json.reread_map Snapshot.reread Snapshot.reread_toJson, hwarnings]
  rfl

/-! ## Every part has a text -/

open Json (ordinary_nat ordinary_nullable ordinary_map)

theorem Recipients.ordinary_toJson (r : Recipients) : r.toJson.Ordinary := by
  refine .object ?_
  simp only [List.forall_mem_cons]
  exact ⟨ordinary_map fun _ _ => .string _, ordinary_nullable fun _ _ => .string _, nofun⟩

theorem RunDecision.ordinary_toJson (d : RunDecision) : d.toJson.Ordinary := by
  refine .object ?_
  simp only [List.forall_mem_cons]
  exact ⟨.string _, ordinary_nullable fun _ _ => .string _, nofun⟩

theorem Snapshot.ordinary_toJson {s : Snapshot} (h : s.Fits) (hp : s.percent.Moderate) :
    s.toJson.Ordinary := by
  have hremaining : (Json.number (.integer s.remaining)).Ordinary :=
    .integer h.1 (Int.lt_trans h.2 (by decide))
  refine .object ?_
  simp only [List.forall_mem_cons]
  exact ⟨.string _, .string _, .string _, .string _, ordinary_nat _,
    ordinary_nullable fun n _ => ordinary_nat n, ordinary_nat _, .real hp, .string _,
    ordinary_nat _, hremaining, nofun⟩

theorem PlanEntry.ordinary_of_fits {e : PlanEntry} (h : e.snapshot.Fits)
    (hp : e.snapshot.percent.Moderate) : e.toJson.Ordinary := by
  refine .object ?_
  simp only [List.forall_mem_cons]
  exact ⟨.string _, .string _, e.recipients.ordinary_toJson, e.snapshot.ordinary_toJson h hp,
    .bool _, .bool _, nofun⟩

theorem PlanEntry.ordinary_toJson {e : PlanEntry} (h : e.snapshot.IsPlain)
    (hp : e.snapshot.percent.Moderate) : e.toJson.Ordinary :=
  ordinary_of_fits h.fits hp

theorem SuppressReason.ordinary_members (r : SuppressReason) : ∀ m ∈ r.members, m.2.Ordinary := by
  cases r <;> simp only [members, List.forall_mem_cons]
  · exact ⟨.string _, nofun⟩
  · exact ⟨.string _, .string _, nofun⟩

theorem Suppressed.ordinary_toJson {s : Suppressed} (hp : s.percent.Moderate) :
    s.toJson.Ordinary := by
  refine .object ?_
  simp only [List.cons_append, List.nil_append, List.forall_mem_cons]
  exact ⟨.string _, .real hp, s.reason.ordinary_members⟩

theorem Warning.ordinary_toJson (w : Warning) : w.toJson.Ordinary := by
  have hmarker : ∀ k : Marker, k.toJson.Ordinary := by
    intro k
    cases k with
    | level s =>
      refine .object ?_
      simp only [List.forall_mem_cons]
      exact ⟨.string _, nofun⟩
    | selfEscalation => exact .string _
  cases w <;> refine .object ?_ <;> simp only [List.forall_mem_cons]
  · exact ⟨.string _, .string _, .string _, nofun⟩
  · exact ⟨.string _, .string _, hmarker _, .string _, nofun⟩
  · exact ⟨.string _, .string _, .string _, nofun⟩
  · exact ⟨.string _, .string _, .string _, nofun⟩

theorem Report.ordinary_toJson {r : Report} (h : ∀ s ∈ r.figures, s.Fits)
    (hp : ∀ p ∈ r.percents, p.Moderate) : r.toJson.Ordinary := by
  have hfigures : ∀ s ∈ r.figures, s.Fits ∧ s.percent.Moderate := fun s hs =>
    ⟨h s hs, hp _ (List.mem_append_left _ (List.mem_map_of_mem hs))⟩
  obtain ⟨hentries, hevaluated⟩ := List.forall_mem_append.mp hfigures
  have hentries := List.forall_mem_map.mp hentries
  refine .object ?_
  simp only [List.forall_mem_cons]
  exact ⟨.string _, .string _, r.decision.ordinary_toJson,
    ordinary_map fun e he => e.ordinary_of_fits (hentries e he).1 (hentries e he).2,
    ordinary_map fun s hs =>
      s.ordinary_toJson (hp _ (List.mem_append_right _ (List.mem_map_of_mem hs))),
    ordinary_map fun s hs => s.ordinary_toJson (hevaluated s hs).1 (hevaluated s hs).2,
    ordinary_map fun w _ => w.ordinary_toJson, nofun⟩

/-- The text of a report denotes the value of the report with every percentage read again, whether
or not its months read back. -/
theorem Report.parse?_of_fits {r : Report} (h : ∀ s ∈ r.figures, s.Fits)
    (hp : ∀ p ∈ r.percents, p.Moderate) : Json.parse? r.toJson.compact = some r.reread.toJson := by
  rw [Json.parse?_compact (r.ordinary_toJson h hp), r.reread_toJson]

theorem Report.parse?_compact {r : Report} (h : ∀ s ∈ r.figures, s.IsPlain)
    (hp : ∀ p ∈ r.percents, p.Moderate) : Json.parse? r.toJson.compact = some r.reread.toJson :=
  r.parse?_of_fits (fun s hs => (h s hs).fits) hp

theorem Report.figures_reread (r : Report) : r.reread.figures = r.figures.map Snapshot.reread := by
  rw [figures, figures, List.map_append, reread, List.map_map, List.map_map]
  rfl

theorem Snapshot.IsPlain.reread {s : Snapshot} (h : s.IsPlain) : s.reread.IsPlain :=
  ⟨h.month, h.low, h.high⟩

theorem Report.IsPlain.reread {r : Report} (h : r.IsPlain) : r.reread.IsPlain where
  month := h.month
  figures := by
    rw [r.figures_reread]
    exact List.forall_mem_map.mpr fun s hs => (h.figures s hs).reread
  warnings := h.warnings

/-- An entry is read from its text with its percentage read again. -/
theorem PlanEntry.ofJson?_compact {e : PlanEntry} (h : e.snapshot.IsPlain)
    (hp : e.snapshot.percent.Moderate) (w : Json.Within) :
    (Json.parse? e.toJson.compact).bind (PlanEntry.ofJson? w) = some e.reread := by
  have hplain : e.reread.snapshot.IsPlain := h.reread
  rw [Json.parse?_compact (PlanEntry.ordinary_toJson h hp), Option.bind_some,
    PlanEntry.reread_toJson, PlanEntry.ofJson?_toJson w hplain]

/-- A report is read from its text with every percentage read again. -/
theorem Report.ofText?_compact {r : Report} (h : r.IsPlain) (hp : ∀ p ∈ r.percents, p.Moderate) :
    (Json.parse? r.toJson.compact).bind Report.ofJson? = some r.reread := by
  rw [Report.parse?_compact h.figures hp, Option.bind_some, Report.ofJson?_toJson h.reread]

end OvertimeNotice
