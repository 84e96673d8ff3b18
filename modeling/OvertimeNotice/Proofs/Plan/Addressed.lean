import OvertimeNotice.Proofs.Plan.Apart
import OvertimeNotice.Proofs.Plan.Threshold

/-!
# To whom entries go

Direct notice goes to the identity that stands in the record, every other entry to whom the
configuration names, and an entry says whether that is nobody.

* `Config.mem_managers`: the managers of a department are the identities listed for it or for all.
* `Addressed`: how an entry about a record is addressed.
* `addressed_of_report`: all entries of a run are addressed so.
-/

namespace OvertimeNotice

namespace Recipients

theorem isEmpty_iff {rs : Recipients} :
    rs.isEmpty = true ↔ (∀ x, x ∉ rs.managers) ∧ rs.employee = none := by
  rw [isEmpty, Bool.and_eq_true, Option.isNone_iff_eq_none, TextSet.isEmpty, List.isEmpty_iff,
    List.eq_nil_iff_forall_not_mem]
  rfl

end Recipients

theorem identity?_eq_some {given x : String} :
    identity? given = some x ↔ Text.trim given = x ∧ x ≠ "" := by
  unfold identity?
  split
  · rename_i hblank
    rw [hblank]
    exact iff_of_false nofun fun h => h.2 h.1.symm
  · rename_i hne
    rw [Option.some.injEq]
    exact ⟨fun h => ⟨h, h ▸ hne⟩, And.left⟩

theorem Config.mem_managers {c : Config} {department x : String} : x ∈ c.managers department ↔
    ∃ key, (key = department ∨ key = everyDepartment) ∧
      ∃ given ∈ (c.recipients.find? key).getD [], identity? given = some x := by
  simp [managers, listed, List.mem_filterMap]

namespace Planner

/-- The entry is about the figures of the record, is addressed as its kind asks, and says whether it
has a recipient. -/
structure Addressed (c : Config) (r : OvertimeRecord) (s : Snapshot) (e : PlanEntry) : Prop where
  snapshot : e.snapshot = s
  gap : e.recipientGap = e.recipients.isEmpty
  notice : e.kind = .selfEscalation →
    ∃ identity, r.identity = some identity ∧ e.recipients = .onlyEmployee identity
  report : e.kind ≠ .selfEscalation →
    e.recipients = c.recipientsOf r.department r.employee r.identity e.mode s.severity

variable {c : Config} {r : OvertimeRecord} {s : Snapshot} {sent : MonthMarks} {e : PlanEntry}

theorem Addressed.gap_iff (h : Addressed c r s e) :
    e.recipientGap = true ↔ (∀ x, x ∉ e.recipients.managers) ∧ e.recipients.employee = none := by
  rw [h.gap, Recipients.isEmpty_iff]

theorem Addressed.gap_of_notice (h : Addressed c r s e) (hkind : e.kind = .selfEscalation) :
    e.recipientGap = false := by
  obtain ⟨identity, -, hto⟩ := h.notice hkind
  rw [h.gap, hto]
  rfl

/-- Whoever is listed for every department receives every entry but direct notice, which has a
recipient anyway. -/
theorem Addressed.gap_of_listed (h : Addressed c r s e)
    (hlisted : ∃ given ∈ (c.recipients.find? everyDepartment).getD [], Text.trim given ≠ "") :
    e.recipientGap = false := by
  by_cases hkind : e.kind = .selfEscalation
  · exact h.gap_of_notice hkind
  · obtain ⟨given, hgiven, hne⟩ := hlisted
    refine Bool.eq_false_iff.mpr fun hgap => (h.gap_iff.mp hgap).1 (Text.trim given) ?_
    rw [h.report hkind]
    exact Config.mem_managers.mpr
      ⟨everyDepartment, .inr rfl, given, hgiven, identity?_eq_some.mpr ⟨rfl, hne⟩⟩

theorem addressed_planned : Addressed c r s e.planned ↔ Addressed c r s e :=
  ⟨fun h => ⟨h.snapshot, h.gap, h.notice, h.report⟩,
    fun h => ⟨h.snapshot, h.gap, h.notice, h.report⟩⟩

theorem addressed_entry {kind : EntryKind} (mode : RunMode) (hk : kind ≠ .selfEscalation) :
    Addressed c r s (entry kind mode
      (c.recipientsOf r.department r.employee r.identity mode s.severity) s) :=
  ⟨rfl, rfl, fun h => absurd h hk, fun _ => rfl⟩

theorem addressed_of_mem_stepEntries (h : e ∈ stepEntries c sent r s) : Addressed c r s e := by
  unfold stepEntries at h
  split at h
  · rw [List.mem_singleton.mp h]
    exact addressed_entry _ (by decide)
  · exact nomatch h

theorem addressed_of_mem_noticeEntries (h : e ∈ noticeEntries c sent r s) :
    Addressed c r s e := by
  unfold noticeEntries at h
  split at h
  · rename_i identity hidentity
    split at h
    · rw [List.mem_singleton.mp h]
      exact ⟨rfl, rfl, fun _ => ⟨identity, hidentity, rfl⟩, fun hk => absurd rfl hk⟩
    · exact nomatch h
  · exact nomatch h

variable {σ : Type} {b : Backend σ} {runId : String} {now : Moment} {decision : RunDecision}
  {rows : List RawRow} {l l' : Ledger σ} {rep : Report}

theorem addressed_of_report (h : run b c runId now decision rows l = (.ok rep, l')) :
    ∃ work, Evaluated c (intake now.toMonth rows).records work ∧
      ∀ e ∈ rep.entries, ∃ w ∈ work, Addressed c w.1 w.2 e := by
  obtain ⟨work, hev, rfl, -⟩ := run_eq_ok h
  refine ⟨work, hev, fun e he => ?_⟩
  cases hm : decision.mode with
  | forced =>
    simp only [report, hm, decideAll_forced_eq, List.flatMap_map, List.mem_flatMap] at he
    obtain ⟨w, hw, he⟩ := he
    rw [List.mem_singleton.mp he]
    exact ⟨w, hw, addressed_entry _ (by decide)⟩
  | threshold =>
    obtain ⟨-, hentries, -, -⟩ := decideAll_threshold (b := b) (c := c) (l := l) hev.workOf
    have hplanned : e.planned ∈ ((decideAll b c .threshold work l).1.flatMap (·.entries)).map
        PlanEntry.planned := List.mem_map_of_mem (by simpa only [report, hm] using he)
    rw [hentries, List.mem_flatMap] at hplanned
    obtain ⟨w, hw, hdue⟩ := hplanned
    refine ⟨w, hw, addressed_planned.mp ?_⟩
    rcases List.mem_append.mp hdue with hdue | hdue
    · exact addressed_of_mem_stepEntries hdue
    · exact addressed_of_mem_noticeEntries hdue

/-- An entry says whether it has a recipient. -/
theorem recipientGap_of_report (h : run b c runId now decision rows l = (.ok rep, l')) :
    ∀ e ∈ rep.entries, e.recipientGap = e.recipients.isEmpty := by
  obtain ⟨work, -, haddressed⟩ := addressed_of_report h
  intro e he
  obtain ⟨w, -, hw⟩ := haddressed e he
  exact hw.gap

end Planner

end OvertimeNotice
