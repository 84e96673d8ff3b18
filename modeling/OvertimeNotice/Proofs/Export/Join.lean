import OvertimeNotice.Proofs.Export.Months

/-!
# The roster and the exports put together

A fetch makes one row of each roster entry, with the minutes that the last row of either export
gives its key.

* `Export.fetch_eq`, `Export.fetch_eq_ok`, `Export.fetch_eq_error`: what a fetch reads.
* `Export.fetch_joins`: the rows of a fetch.
-/

namespace OvertimeNotice

namespace Export

variable {dataDir : String} {month : Month} {t : Tree} {entries : List RosterEntry}
  {rows : List Json}

/-! ## The rows -/

/-- The row of a roster entry, by the rows of the exports. -/
def joinedRow (rows : List Json) (previous : Option (List Json)) (e : RosterEntry) : RawRow :=
  { employee := e.code
    name := e.name
    department := e.department
    identity := if e.identity = "" then none else some e.identity
    minutes := minutesIn? rows e.key
    previousMinutes := previous.bind fun rows => minutesIn? rows e.key }

theorem fetch_eq (dataDir : String) (month : Month) (t : Tree) : fetch dataDir month t =
    (roster dataDir month t).bind fun entries => (monthFigures dataDir month t).bind fun current? =>
      match current? with
      | none => .error (.source month .noExport)
      | some current => (monthFigures dataDir month.previous t).map fun previous =>
          entries.map (rowOf current previous) := by
  unfold fetch
  cases roster dataDir month t with
  | error f => rfl
  | ok entries =>
    cases monthFigures dataDir month t with
    | error f => rfl
    | ok current? =>
      cases current? with
      | none => rfl
      | some current => cases monthFigures dataDir month.previous t <;> rfl

/-- What a fetch has read. -/
theorem fetch_eq_ok {raws : List RawRow} (h : fetch dataDir month t = .ok raws) :
    ∃ entries current previous, roster dataDir month t = .ok entries ∧
      monthFigures dataDir month t = .ok (some current) ∧
      monthFigures dataDir month.previous t = .ok previous ∧
      raws = entries.map (rowOf current previous) := by
  rw [fetch_eq] at h
  cases hr : roster dataDir month t with
  | error f => rw [hr] at h; exact nomatch h
  | ok entries =>
    rw [hr] at h
    cases hc : monthFigures dataDir month t with
    | error f => rw [hc] at h; exact nomatch h
    | ok current? =>
      rw [hc] at h
      cases current? with
      | none => exact nomatch h
      | some current =>
        cases hp : monthFigures dataDir month.previous t with
        | error f => rw [hp] at h; exact nomatch h
        | ok previous =>
          rw [hp] at h
          exact ⟨entries, current, previous, rfl, rfl, rfl, (Except.ok.inj h).symm⟩

/-- Where a fetch fails. -/
theorem fetch_eq_error {f : Failure} (h : fetch dataDir month t = .error f) :
    roster dataDir month t = .error f ∨ (∃ entries, roster dataDir month t = .ok entries) ∧
      (monthFigures dataDir month t = .error f ∨
        monthFigures dataDir month t = .ok none ∧ f = .source month .noExport ∨
        ∃ current, monthFigures dataDir month t = .ok (some current) ∧
          monthFigures dataDir month.previous t = .error f) := by
  rw [fetch_eq] at h
  cases hr : roster dataDir month t with
  | error f' => rw [hr] at h; exact .inl (Except.error.inj h ▸ rfl)
  | ok entries =>
    rw [hr] at h
    refine .inr ⟨⟨entries, rfl⟩, ?_⟩
    cases hc : monthFigures dataDir month t with
    | error f' => rw [hc] at h; exact .inl (Except.error.inj h ▸ rfl)
    | ok current? =>
      rw [hc] at h
      cases current? with
      | none => exact .inr (.inl ⟨rfl, (Except.error.inj h).symm⟩)
      | some current =>
        cases hp : monthFigures dataDir month.previous t with
        | error f' => rw [hp] at h; exact .inr (.inr ⟨current, rfl, Except.error.inj h ▸ rfl⟩)
        | ok previous => rw [hp] at h; exact nomatch h

/-- **A fetch makes one row of each roster entry**, in roster order. Its minutes are what the last
row that names the entry's key says, and zero if none does; those of the month before are found
likewise, and there are none without an export of that month. -/
theorem fetch_joins {previous : Option (List Json)} (hroster : roster dataDir month t = .ok entries)
    (hcurrent : Delivers dataDir month t (some rows))
    (hprevious : Delivers dataDir month.previous t previous)
    (hb : AllBounded (some rows)) (hb' : AllBounded previous) :
    fetch dataDir month t = .ok (entries.map (joinedRow rows previous)) := by
  obtain ⟨current, hfs, hmin⟩ := figures_eq_ok (hb rows rfl)
  obtain ⟨before, hbefore, hmin'⟩ := monthFigures_eq_ok hprevious hb'
  have hrow : rowOf current before = joinedRow rows previous := by
    funext e
    simp only [rowOf, joinedRow, hmin, hmin']
  rw [fetch_eq, hroster, monthFigures_of_rows hcurrent, hfs, hbefore]
  show Except.ok (entries.map (rowOf current before)) = _
  rw [hrow]

private def joinedRows : List Json :=
  [givingRow "k1" 500 40, spoiltRow "k2" "lots", givingRow "k9" 1 1]

private def joinedTree : Tree := withExport "data" dataMonth (written joinedRows) dataTree

theorem fetch_joins_sample : fetch "data" dataMonth joinedTree =
    .ok [⟨"1001", "Ann", "300", none, some 540, none⟩,
      ⟨"1002", "Bob", "300", some "bob@example.com", none, none⟩] := by
  have hroster : roster "data" dataMonth joinedTree = .ok dataRoster :=
    (roster_withExport canHold_dataTree _).trans (roster_dataTree _)
  have hcurrent : Delivers "data" dataMonth joinedTree (some joinedRows) := by
    refine delivers_written canHold_dataTree ?_ ?_ (by decide)
    · simp only [joinedRows, List.forall_mem_cons]
      exact ⟨ordinary_givingRow (by decide) (by decide), ordinary_textRecord _,
        ordinary_givingRow (by decide) (by decide), by simp⟩
    · simp only [joinedRows, List.forall_mem_cons]
      exact ⟨rfl, rfl, rfl, by simp⟩
  have hprevious : Delivers "data" dataMonth.previous joinedTree none :=
    missing_withExport_of_ne canHold_dataTree (Month.previous_ne _) missing_dataTree
  rw [fetch_joins hroster hcurrent hprevious (by decide +kernel) (by decide)]
  decide +kernel

theorem fetch_paidTree : fetch "data" dataMonth paidTree =
    .ok [⟨"1001", "Ann", "300", none, some 540, none⟩,
      ⟨"1002", "Bob", "300", some "bob@example.com", some 0, none⟩] := by
  rw [fetch_eq, roster_paidTree, monthFigures_of_rows delivers_paidTree,
    monthFigures_of_missing missing_paidTree]
  decide +kernel

end Export

end OvertimeNotice
