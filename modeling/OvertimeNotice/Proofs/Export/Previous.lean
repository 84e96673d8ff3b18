import OvertimeNotice.Proofs.Export.Join
import OvertimeNotice.Proofs.Plan.Comparison

/-!
# The export of the month before

Without an export of the month before there is nothing to compare with, and the run is the same
otherwise. But where there is a file it must be an array, as that of the month itself.

* `Export.fetch_previous`: what a fetch and a run owe to the export of the month before.
* `Export.fetch_previous_torn`: a file that costs more than the comparison.
-/

namespace OvertimeNotice

namespace Export

variable {dataDir text : String} {month : Month} {t : Tree} {c : Content} {rows : List Json}
  {raws : List RawRow}

theorem rowOf_uncompared (current : TextMap Figure) (previous : Option (TextMap Figure))
    (e : RosterEntry) : (rowOf current previous e).uncompared = rowOf current none e := rfl

/-- A fetch with another export of the month before. -/
theorem fetch_withExport_previous (hfetch : fetch dataDir month t = .ok raws)
    (hmissing : Delivers dataDir month.previous t none) :
    CanHold dataDir month.previous t ∧ ∃ (entries : List RosterEntry) (current : TextMap Figure),
      raws = entries.map (rowOf current none) ∧
      ∀ c, fetch dataDir month (withExport dataDir month.previous c t) =
        (monthFigures dataDir month.previous (withExport dataDir month.previous c t)).map
          fun previous => entries.map (rowOf current previous) := by
  obtain ⟨entries, current, previous, hroster, hcurrent, hprevious, hraws⟩ := fetch_eq_ok hfetch
  rw [monthFigures_of_missing hmissing] at hprevious
  obtain rfl := Except.ok.inj hprevious
  obtain ⟨rows, hrows⟩ := monthFigures_eq_some hcurrent
  have hcan := canHold_of_missing hrows hmissing
  refine ⟨hcan, entries, current, hraws, fun c => ?_⟩
  rw [fetch_eq, roster_withExport hcan, hroster,
    monthFigures_withExport_of_ne hcan (Month.previous_ne month).symm, hcurrent]
  rfl

/-- **What the export of the month before is for.** Where a fetch succeeds without one, it succeeds
with any array whose rows have sums of 64 bits. The rows are the same but for the figures of that
month, and so is whatever a run makes of them but for the comparison. With anything else in its
place the fetch fails. -/
theorem fetch_previous (hfetch : fetch dataDir month t = .ok raws)
    (hmissing : Delivers dataDir month.previous t none) (c : Content) :
    (∀ text previous, c.text? = some text → rows? text = some previous →
      AllBounded (some previous) →
      ∃ raws', fetch dataDir month (withExport dataDir month.previous c t) = .ok raws' ∧
        raws'.map RawRow.uncompared = raws ∧
        ∀ {σ : Type} (b : Backend σ) (config : Config) (runId : String) (now : Moment)
          (decision : RunDecision) (l : Ledger σ),
          Planner.run b config runId now decision raws l =
            ((Planner.run b config runId now decision raws' l).1.map Report.uncompared,
              (Planner.run b config runId now decision raws' l).2)) ∧
    (c.text? = none →
      fetch dataDir month (withExport dataDir month.previous c t) = .error (.file .notText)) ∧
    ∀ text, c.text? = some text → rows? text = none →
      fetch dataDir month (withExport dataDir month.previous c t) = .error .malformed := by
  obtain ⟨hcan, entries, current, rfl, heq⟩ := fetch_withExport_previous hfetch hmissing
  refine ⟨fun text previous hc hrows hb => ?_, fun hc => ?_, fun text hc hrows => ?_⟩
  · obtain ⟨fs, hfs, -⟩ := monthFigures_eq_ok (delivers_withExport hcan hc hrows) hb
    have hraws : (entries.map (rowOf current fs)).map RawRow.uncompared =
        entries.map (rowOf current none) := by
      rw [List.map_map]
      exact List.map_congr_left fun e _ => rowOf_uncompared current fs e
    refine ⟨entries.map (rowOf current fs), by rw [heq, hfs]; rfl, hraws, ?_⟩
    intro σ b config runId now decision l
    rw [← hraws, Planner.run_uncompared]
  · rw [heq, monthFigures_withExport_not_text hcan hc]
    rfl
  · rw [heq, monthFigures_withExport_not_rows hcan hc hrows]
    rfl

private def earlierRows : List Json := [givingRow "k1" 270 0]

theorem fetch_previous_sample : ∃ raws,
    fetch "data" dataMonth
      (withExport "data" dataMonth.previous (written earlierRows) paidTree) = .ok raws ∧
    raws.map RawRow.uncompared = [⟨"1001", "Ann", "300", none, some 540, none⟩,
      ⟨"1002", "Bob", "300", some "bob@example.com", some 0, none⟩] := by
  have hrows : rows? (Json.array earlierRows).compact = some earlierRows :=
    rows?_compact (List.forall_mem_singleton.mpr (ordinary_givingRow (by decide) (by decide)))
      (List.forall_mem_singleton.mpr rfl) (by decide)
  obtain ⟨raws, hraws, hsame, -⟩ := (fetch_previous fetch_paidTree missing_paidTree
    (written earlierRows)).1 _ _ (Content.text?_ofText _) hrows (by decide +kernel)
  exact ⟨raws, hraws, hsame⟩

/-- An opening brace in place of the export of the month before, and a fetch that fails for it. -/
theorem fetch_previous_torn :
    Delivers "data" dataMonth.previous paidTree none ∧
      fetch "data" dataMonth paidTree = .ok [⟨"1001", "Ann", "300", none, some 540, none⟩,
        ⟨"1002", "Bob", "300", some "bob@example.com", some 0, none⟩] ∧
      fetch "data" dataMonth (withExport "data" dataMonth.previous (.ofText "\x7b") paidTree) =
        .error .malformed := by
  refine ⟨missing_paidTree, fetch_paidTree, ?_⟩
  obtain ⟨hcan, entries, current, -, heq⟩ :=
    fetch_withExport_previous fetch_paidTree missing_paidTree
  have hrows : rows? "\x7b" = none := Option.isNone_iff_eq_none.mp (by decide +kernel)
  rw [heq, monthFigures_withExport_not_rows hcan (Content.text?_ofText _) hrows]
  rfl

end Export

end OvertimeNotice
