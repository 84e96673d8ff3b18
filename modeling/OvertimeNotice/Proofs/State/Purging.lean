import OvertimeNotice.Proofs.State.Interchange

/-!
# What a purge of a database drops

A database drops the marks of the months whose text comes before that of the month it is purged up
to. These are the months before exactly if all years are in step with that month's.

* `Tables.Shows.purged_in_step_iff`: when the rows that stay are those the calendar says.
* `World.performAll_upserts`: a database that has been told marks has these and no others.
* `World.purge_in_step_iff`: what a database drops that has been told any marks.
* `World.purge_drops_later`: it drops a month of year 10000 when it is purged up to one of 2026.
-/

namespace OvertimeNotice

/-! ## Rows -/

namespace Tables

variable {t : Tables} {marks : Finset Mark} {month : Month}

theorem Shows.ofMark_mem (h : t.Shows marks) (e : Mark) :
    MarkRow.ofMark e ∈ t.marks ↔ e ∈ marks := by
  rw [h.rows]
  exact ⟨fun ⟨x, hx, he⟩ => MarkRow.ofMark_injective he ▸ hx, fun he => ⟨e, he, rfl⟩⟩

/-- The marks that a purge drops are those of the months before, and those that it keeps are the
others, exactly if the order of texts is that of months for each of them. -/
theorem Shows.purged_in_step_iff (h : t.Shows marks) (month : Month) :
    (t.marks.length - (t.purged month).marks.length = {x ∈ marks | x.month < month}.card ∧
      ∀ r, r ∈ (t.purged month).marks ↔ ∃ x ∈ marks, month ≤ x.month ∧ MarkRow.ofMark x = r) ↔
    ∀ x ∈ marks, x.month.InStep month := by
  rw [h.length_sub_purged]
  constructor
  · rintro ⟨-, hkept⟩ x hx
    have hmem := (h.purged month).ofMark_mem x
    rw [hkept, Finset.mem_filter] at hmem
    rw [Month.inStep_iff, ← not_iff_not]
    constructor
    · intro htext
      obtain ⟨y, -, hy, hxy⟩ := hmem.mpr ⟨hx, htext⟩
      exact Int.not_lt.mpr (MarkRow.ofMark_injective hxy ▸ hy)
    · intro hle
      exact (hmem.mp ⟨x, hx, Int.not_lt.mp hle, rfl⟩).2
  · intro hstep
    have hold : ∀ x ∈ marks, x.month.text < month.text ↔ x.month < month := fun x hx =>
      Month.inStep_iff.mp (hstep x hx)
    refine ⟨by rw [Finset.filter_congr hold], fun r => ?_⟩
    rw [(h.purged month).rows]
    constructor
    · rintro ⟨x, hx, rfl⟩
      obtain ⟨hx, hle⟩ := Finset.mem_filter.mp hx
      exact ⟨x, hx, Int.not_lt.mp ((hold x hx).not.mp hle), rfl⟩
    · rintro ⟨x, hx, hle, rfl⟩
      exact ⟨x, Finset.mem_filter.mpr ⟨hx, (hold x hx).not.mpr (Int.not_lt.mpr hle)⟩, rfl⟩

end Tables

/-! ## Databases -/

namespace World

variable {w : World} {tables : Tables} {marks : Finset Mark}

/-- Marks that a database is told are added to those it has, and every call succeeds. -/
theorem performAll_upserts (hw : Serving (.ready tables) w) (ht : tables.Shows marks)
    (es : List Mark) (more : List BackendCall) :
    ∃ tables' w', Serving (.ready tables') w' ∧ tables'.Shows (marks ∪ es.toFinset) ∧
      backend.performAll (es.map .upsert ++ more) w =
        (es.map (.upsert · (.ok ())) ++ (backend.performAll more w').1,
          (backend.performAll more w').2) := by
  induction es generalizing w tables marks with
  | nil => exact ⟨tables, w, hw, by simpa using ht, rfl⟩
  | cons e es ih =>
    obtain ⟨v, hv, hserving⟩ := hw.upsert_eq e
    obtain ⟨tables', w', hw', ht', hrest⟩ := ih hserving (ht.upserted e)
    have hset : insert e marks ∪ es.toFinset = marks ∪ (e :: es).toFinset := by
      rw [List.toFinset_cons, Finset.insert_union, Finset.union_insert]
    have hstep : backend.perform (.upsert e) w = (.upsert e (.ok ()), v) := by
      simp only [Backend.perform, hv, Prod.map, id]
    refine ⟨tables', w', hw', hset ▸ ht', ?_⟩
    rw [List.map_cons, List.cons_append, Backend.performAll, hstep]
    simp only [hrest, List.map_cons, List.cons_append]

/-- A database without marks that is told marks and then purged: every call succeeds, and the
answer is the number of rows that are gone. -/
theorem performAll_purge (hw : Serving (.ready tables) w) (hno : tables.marks = [])
    (es : List Mark) (month : Month) :
    ∃ (full : Tables) (w' : World), full.Shows es.toFinset ∧
      Serving (.ready (full.purged month)) w' ∧
      backend.performAll (es.map .upsert ++ [.purge month]) w =
        (es.map (.upsert · (.ok ())) ++
          [.purge month (.ok (full.marks.length - (full.purged month).marks.length))], w') := by
  obtain ⟨full, v, hv, hfull, hcalls⟩ :=
    performAll_upserts hw (Tables.shows_empty hno) es [.purge month]
  rw [Finset.empty_union] at hfull
  obtain ⟨w', hw', hserving⟩ := hv.purge_eq month
  refine ⟨full, w', hfull, hserving, ?_⟩
  rw [hcalls]
  simp only [Backend.performAll, Backend.perform, hw', Prod.map, id]

/-- **What a purge drops.** A database without marks is told any marks and then purged. Every call
succeeds, and the answer is the number of marks that are gone. They are those of the months before,
and the others are kept, exactly if the years of all of them are in step with the month's. -/
theorem purge_in_step_iff (hw : Serving (.ready tables) w) (hno : tables.marks = [])
    (es : List Mark) (month : Month) :
    ∃ n kept w', backend.performAll (es.map .upsert ++ [.purge month]) w =
        (es.map (.upsert · (.ok ())) ++ [.purge month (.ok n)], w') ∧
      Serving (.ready kept) w' ∧ n + kept.marks.length = es.toFinset.card ∧
      ((n = {e ∈ es.toFinset | e.month < month}.card ∧
          ∀ r, r ∈ kept.marks ↔ ∃ e ∈ es, month ≤ e.month ∧ MarkRow.ofMark e = r) ↔
        ∀ e ∈ es, e.month.InStep month) := by
  obtain ⟨full, w', hfull, hserving, hcalls⟩ := performAll_purge hw hno es month
  refine ⟨_, full.purged month, w', hcalls, hserving, ?_, ?_⟩
  · rw [← hfull.length]
    exact Nat.sub_add_cancel (List.length_filter_le ..)
  · simpa using hfull.purged_in_step_iff month

private def february2026 : Month := (Month.of? 2026 2).getD default

private def october2026 : Month := (Month.of? 2026 10).getD default

private def january10000 : Month := (Month.of? 10000 1).getD default

/-- A mark of each of three months. -/
private def sampleMarks : List Mark :=
  [⟨"7", february2026, .level .p90⟩, ⟨"7", october2026, .selfEscalation⟩,
    ⟨"7", october2026.previous, .level .p60⟩]

theorem purge_in_step_iff_sample : ∃ w w' w'', connect? ⟨[]⟩ "overtime.db" = .ok w ∧
    call migrate w = (.ok (), w') ∧
      backend.performAll (sampleMarks.map .upsert ++ [.purge october2026]) w' =
        (sampleMarks.map (.upsert · (.ok ())) ++ [.purge october2026 (.ok 2)], w'') := by
  obtain ⟨w, w', hw, hw', hserving⟩ := exists_new
  obtain ⟨n, kept, w'', hcalls, -, -, hiff⟩ :=
    purge_in_step_iff hserving rfl sampleMarks october2026
  obtain ⟨rfl, -⟩ := hiff.mpr (by decide +kernel)
  exact ⟨w, w', w'', hw, hw', hcalls⟩

/-- Purged up to a month of 2026, a database drops a mark of year 10000. -/
theorem purge_drops_later : ∃ w w' w'' kept, connect? ⟨[]⟩ "overtime.db" = .ok w ∧
    call migrate w = (.ok (), w') ∧ october2026 < january10000 ∧
      backend.performAll [.upsert ⟨"1001", january10000, .level .p90⟩, .purge october2026] w' =
        ([.upsert ⟨"1001", january10000, .level .p90⟩ (.ok ()), .purge october2026 (.ok 1)], w'') ∧
      Serving (.ready kept) w'' ∧ kept.marks = [] := by
  obtain ⟨w, w', hw, hw', hserving⟩ := exists_new
  obtain ⟨full, w'', hfull, hkept, hcalls⟩ :=
    performAll_purge hserving rfl [⟨"1001", january10000, .level .p90⟩] october2026
  have hnone := (hfull.purged october2026).length
  rw [hfull.length_sub_purged october2026] at hcalls
  exact ⟨w, w', w'', _, hw, hw', by decide, hcalls, hkept, List.length_eq_zero_iff.mp hnone⟩

end World

end OvertimeNotice
