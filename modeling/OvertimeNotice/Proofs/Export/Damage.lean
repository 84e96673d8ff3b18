import OvertimeNotice.Proofs.Export.Join

/-!
# Bad rows of an export

A row that cannot be read costs its own employee the figure, and nobody else anything. A row that
can be read but has no sum of 64 bits costs everybody the run: the fetch is broken off.

* `Export.fetch_eq_violation`: when a fetch is broken off.
* `Export.Spares`: two fetches that are the same for some keys.
* `Export.fetch_appended`: what one more row costs.
* `Export.fetch_appended_unnamed`: a row of nobody that costs everybody the run.
-/

namespace OvertimeNotice

namespace Export

variable {dataDir text : String} {month m : Month} {t u : Tree} {c : Content} {rows : List Json}
  {row : Json} {p : String → Prop} {v : Violation}

/-! ## Fetches that are broken off -/

theorem roster_ne_violation : roster dataDir month t ≠ .error (.violation v) := by
  cases htext : t.readText (rosterPath dataDir) with
  | error f => simp [roster, htext]
  | ok text =>
    cases hlist : (Json.parse? text).bind (Json.list? RosterEntry.ofJson?) <;>
      simp [roster, htext, hlist]

/-- A fetch is broken off at a sum that does not fit 64 bits in either export, and there only. -/
theorem fetch_eq_violation : fetch dataDir month t = .error (.violation v) ↔
    v = .sumRange ∧ (∃ entries, roster dataDir month t = .ok entries) ∧
      (∃ rows, Delivers dataDir month t (some rows)) ∧
        (Overflows dataDir month t ∨ Overflows dataDir month.previous t) := by
  constructor
  · intro h
    rcases fetch_eq_error h with hr | ⟨hr, hc | ⟨-, hf⟩ | ⟨current, hc, hp⟩⟩
    · exact absurd hr roster_ne_violation
    · obtain ⟨hv, export?, hd, hb⟩ := monthFigures_eq_violation.mp hc
      cases export? with
      | none => exact absurd (fun rows hrows => nomatch hrows) hb
      | some rows => exact ⟨hv, hr, ⟨rows, hd⟩, .inl ⟨some rows, hd, hb⟩⟩
    · exact nomatch hf
    · obtain ⟨hv, hover⟩ := monthFigures_eq_violation.mp hp
      exact ⟨hv, hr, monthFigures_eq_some hc, .inr hover⟩
  · rintro ⟨rfl, ⟨entries, hr⟩, ⟨rows, hd⟩, hover⟩
    rw [fetch_eq, hr]
    by_cases hcurrent : Overflows dataDir month t
    · rw [monthFigures_eq_violation.mpr ⟨rfl, hcurrent⟩]
      rfl
    · have hb : AllBounded (some rows) := by
        by_contra hb
        exact hcurrent ⟨some rows, hd, hb⟩
      obtain ⟨fs, hfs, -⟩ := figures_eq_ok (hb rows rfl)
      rw [monthFigures_of_rows hd, hfs,
        monthFigures_eq_violation.mpr ⟨rfl, hover.resolve_left hcurrent⟩]
      rfl

/-! ## Fetches that are the same for some keys -/

/-- Two readings of a month fail alike, or give the keys in `p` the same minutes. -/
inductive SameFor (p : String → Prop) : Except Failure (Option (TextMap Figure)) →
    Except Failure (Option (TextMap Figure)) → Prop where
  | error (f : Failure) : SameFor p (.error f) (.error f)
  | missing : SameFor p (.ok none) (.ok none)
  | figures {a b : TextMap Figure} (h : ∀ key, p key → minutesOf? b key = minutesOf? a key) :
      SameFor p (.ok (some a)) (.ok (some b))

theorem SameFor.refl (p : String → Prop) (x : Except Failure (Option (TextMap Figure))) :
    SameFor p x x := by
  match x with
  | .error f => exact .error f
  | .ok none => exact .missing
  | .ok (some a) => exact .figures fun _ _ => rfl

/-- Two fetches fail alike, or make a row of each roster entry that is the same for the entries
whose keys are in `p`. -/
def Spares (p : String → Prop) (dataDir : String) (month : Month) (t u : Tree) : Prop :=
  (∃ f, fetch dataDir month t = .error f ∧ fetch dataDir month u = .error f) ∨
    ∃ entries raws raws', roster dataDir month t = .ok entries ∧
      fetch dataDir month t = .ok raws ∧ fetch dataDir month u = .ok raws' ∧
      raws.length = entries.length ∧ raws'.length = entries.length ∧
      ∀ (i : Nat) e, entries[i]? = some e → p e.key → raws'[i]? = raws[i]?

theorem spares_of_sameFor (hr : roster dataDir month u = roster dataDir month t)
    (hc : SameFor p (monthFigures dataDir month t) (monthFigures dataDir month u))
    (hp : SameFor p (monthFigures dataDir month.previous t)
      (monthFigures dataDir month.previous u)) : Spares p dataDir month t u := by
  rw [Spares, fetch_eq, fetch_eq, hr]
  cases roster dataDir month t with
  | error f => exact .inl ⟨f, rfl, rfl⟩
  | ok entries =>
    generalize monthFigures dataDir month t = x, monthFigures dataDir month u = y at hc
    cases hc with
    | error f => exact .inl ⟨f, rfl, rfl⟩
    | missing => exact .inl ⟨_, rfl, rfl⟩
    | @figures a b hab =>
      generalize monthFigures dataDir month.previous t = x,
        monthFigures dataDir month.previous u = y at hp
      have hrows : ∀ a' b', (∀ e : RosterEntry, p e.key →
          rowOf b b' e = rowOf a a' e) → ∀ (i : Nat) e, entries[i]? = some e → p e.key →
            (entries.map (rowOf b b'))[i]? = (entries.map (rowOf a a'))[i]? := by
        intro a' b' h i e he hpe
        rw [List.getElem?_map, List.getElem?_map, he, Option.map_some, Option.map_some, h e hpe]
      cases hp with
      | error f => exact .inl ⟨f, rfl, rfl⟩
      | missing =>
        refine .inr ⟨entries, _, _, rfl, rfl, rfl, List.length_map .., List.length_map ..,
          hrows _ _ fun e hpe => ?_⟩
        simp only [rowOf, hab _ hpe]
      | figures hab' =>
        refine .inr ⟨entries, _, _, rfl, rfl, rfl, List.length_map .., List.length_map ..,
          hrows _ _ fun e hpe => ?_⟩
        simp only [rowOf, hab _ hpe, Option.bind_some, hab' _ hpe]

/-! ## One more row -/

/-- One more row says nothing of the keys that it does not name. -/
theorem sameFor_appended (hd : Delivers dataDir m t (some rows))
    (hd' : Delivers dataDir m u (some (rows ++ [row]))) (hb : Bounded row) :
    SameFor (fun key => named? row ≠ some key) (monthFigures dataDir m t)
      (monthFigures dataDir m u) := by
  rw [monthFigures_of_rows hd, monthFigures_of_rows hd', figures_concat]
  cases hf : figures rows with
  | error v => exact .error _
  | ok fs =>
    rw [Except.bind, addRow_eq hb]
    refine .figures fun key hkey => ?_
    cases hn : named? row with
    | none => rfl
    | some k =>
      rw [Option.elim_some, minutesOf?_insert_figureOf, if_neg]
      rintro rfl
      exact hkey hn

theorem overflows_of_appended (h : Delivers dataDir m t (some (rows ++ [row])))
    (hb : ¬Bounded row) : Overflows dataDir m t :=
  ⟨_, h, fun hall => hb (hall _ rfl row (by simp))⟩

/-- **What one more row of an export costs.** A fetch is broken off only where a row of either
export can be read but has no sum of 64 bits. One more row that is none of these, whatever it is,
changes nothing for the roster entries whose key it does not name. One that is costs everybody the
run. -/
theorem fetch_appended (dataDir : String) (month : Month) (t : Tree) :
    (∀ v, fetch dataDir month t = .error (.violation v) ↔
      v = .sumRange ∧ (∃ entries, roster dataDir month t = .ok entries) ∧
        (∃ rows, Delivers dataDir month t (some rows)) ∧
          (Overflows dataDir month t ∨ Overflows dataDir month.previous t)) ∧
    ∀ m rows row c text, m = month ∨ m = month.previous → Delivers dataDir m t (some rows) →
      c.text? = some text → rows? text = some (rows ++ [row]) →
      (Bounded row →
        Spares (fun key => named? row ≠ some key) dataDir month t (withExport dataDir m c t)) ∧
      (¬Bounded row → ∀ raws, fetch dataDir month t = .ok raws →
        fetch dataDir month (withExport dataDir m c t) = .error (.violation .sumRange)) := by
  refine ⟨fun v => fetch_eq_violation, ?_⟩
  intro m rows row c text hm hd hc hrows
  have hcan := canHold_of_delivers hd
  have hroster := roster_withExport (c := c) hcan month
  have hd' := delivers_withExport hcan hc hrows
  constructor
  · intro hb
    have hsame := sameFor_appended hd hd' hb
    rcases hm with rfl | rfl
    · refine spares_of_sameFor hroster hsame ?_
      rw [monthFigures_withExport_of_ne hcan (Month.previous_ne m)]
      exact .refl _ _
    · refine spares_of_sameFor hroster ?_ hsame
      rw [monthFigures_withExport_of_ne hcan (Month.previous_ne month).symm]
      exact .refl _ _
  · intro hb raws hraws
    obtain ⟨entries, current, previous, hr, hcurrent, -, -⟩ := fetch_eq_ok hraws
    refine fetch_eq_violation.mpr ⟨rfl, ⟨entries, hroster.trans hr⟩, ?_⟩
    have hover := overflows_of_appended hd' hb
    rcases hm with rfl | rfl
    · exact ⟨⟨_, hd'⟩, .inl hover⟩
    · have hcurrent' := monthFigures_withExport_of_ne (c := c) hcan (Month.previous_ne month).symm
      exact ⟨monthFigures_eq_some (hcurrent'.trans hcurrent), .inr hover⟩

/-! ## One more row of a data directory -/

/-- A row that can be read and has no sum of 64 bits. -/
private def wideRow : Json := givingRow "k9" 9223372036854775807 1

private theorem rows?_appended {row : Json} (h : row.Ordinary) (hreread : row.reread = row)
    (hreadable : (Json.array (paidRows ++ [row])).readable Json.maxDepth = true) :
    rows? (Json.array (paidRows ++ [row])).compact = some (paidRows ++ [row]) := by
  refine rows?_compact ?_ ?_ hreadable
  · exact List.forall_mem_cons.mpr
      ⟨ordinary_givingRow (by decide) (by decide), List.forall_mem_singleton.mpr h⟩
  · exact List.forall_mem_cons.mpr ⟨rfl, List.forall_mem_singleton.mpr hreread⟩

theorem fetch_appended_sample : ∃ raws,
    fetch "data" dataMonth (withExport "data" dataMonth
      (written (paidRows ++ [spoiltRow "k2" "lots"])) paidTree) = .ok raws ∧
    raws[0]? = some ⟨"1001", "Ann", "300", none, some 540, none⟩ := by
  have hspares := ((fetch_appended "data" dataMonth paidTree).2 dataMonth paidRows
    (spoiltRow "k2" "lots") (written (paidRows ++ [spoiltRow "k2" "lots"])) _ (.inl rfl)
    delivers_paidTree (Content.text?_ofText _)
    (rows?_appended (ordinary_textRecord _) rfl (by decide))).1 (by decide)
  rcases hspares with ⟨f, hf, -⟩ | ⟨entries, raws, raws', hr, hraws, hraws', -, -, hsame⟩
  · rw [fetch_paidTree] at hf
    exact nomatch hf
  · rw [roster_paidTree] at hr
    obtain rfl := Except.ok.inj hr
    rw [fetch_paidTree] at hraws
    obtain rfl := Except.ok.inj hraws
    exact ⟨raws', hraws', hsame 0 _ rfl (by decide)⟩

/-- A row that names no key of the roster, and breaks the fetch off. -/
theorem fetch_appended_unnamed :
    Delivers "data" dataMonth paidTree (some paidRows) ∧
      rows? (Json.array (paidRows ++ [wideRow])).compact = some (paidRows ++ [wideRow]) ∧
      roster "data" dataMonth paidTree = .ok dataRoster ∧
      (∀ e ∈ dataRoster, named? wideRow ≠ some e.key) ∧
      fetch "data" dataMonth paidTree = .ok [⟨"1001", "Ann", "300", none, some 540, none⟩,
        ⟨"1002", "Bob", "300", some "bob@example.com", some 0, none⟩] ∧
      fetch "data" dataMonth
        (withExport "data" dataMonth (written (paidRows ++ [wideRow])) paidTree) =
        .error (.violation .sumRange) := by
  have hcan := canHold_of_delivers delivers_paidTree
  have hwide : wideRow.Ordinary := ordinary_givingRow (by decide) (by decide)
  have hrows := rows?_appended hwide rfl (by decide)
  have hd := delivers_withExport (c := written (paidRows ++ [wideRow])) hcan
    (Content.text?_ofText _) hrows
  have hroster := (roster_withExport (c := written (paidRows ++ [wideRow])) hcan dataMonth).trans
    (roster_paidTree _)
  refine ⟨delivers_paidTree, hrows, roster_paidTree _, by decide, fetch_paidTree, ?_⟩
  exact fetch_eq_violation.mpr
    ⟨rfl, ⟨_, hroster⟩, ⟨_, hd⟩, .inl (overflows_of_appended hd (by decide))⟩

end Export

end OvertimeNotice
