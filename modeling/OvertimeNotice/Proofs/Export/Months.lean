import OvertimeNotice.Proofs.Calendar.TextOrder
import OvertimeNotice.Proofs.Export.Rows
import OvertimeNotice.Proofs.Files.Beside
import OvertimeNotice.Proofs.Json.Compact

/-!
# The exports of the months

For each month there may be an export, and what it delivers decides the figures of the month. Where
something else comes as the export of one month, the roster and the exports of all other months read
as before.

* `Export.Delivers`: the rows of a month's export, or that there is none.
* `Export.monthFigures_of_missing`, `Export.monthFigures_of_rows`,
  `Export.monthFigures_eq_violation`: the figures that come of it.
* `Export.withExport`: the tree with a file as the export of a month.
* `Export.roster_withExport`, `Export.monthFigures_withExport_of_ne`: what stays.
* `Export.delivers_withExport`, `Export.monthFigures_withExport_not_text`,
  `Export.monthFigures_withExport_not_rows`: what the new file says.
* `Export.canHold_of_missing`: where there is no export beside another one, there could be.
-/

namespace OvertimeNotice

theorem Month.previous_ne (month : Month) : month.previous ≠ month := by
  intro h
  have := index_previous month
  rw [h] at this
  omega

namespace Export

variable {dataDir text : String} {month m n : Month} {t : Tree} {c : Content} {rows : List Json}
  {export? : Option (List Json)} {v : Violation}

/-! ## The exports -/

theorem roster_of_readText {j : Json} (htext : t.readText (rosterPath dataDir) = .ok text)
    (hparse : Json.parse? text = some j) {entries : List RosterEntry}
    (hlist : Json.list? RosterEntry.ofJson? j = some entries) :
    roster dataDir month t = .ok entries := by
  simp only [roster, htext, hparse, Option.bind_some, hlist]

/-- What the export of a month delivers: the rows of a JSON array, or nothing where there is no
file. -/
def Delivers (dataDir : String) (month : Month) (t : Tree) : Option (List Json) → Prop
  | none => t.readText (monthPath dataDir month) = .error .missing
  | some rows => ∃ text, t.readText (monthPath dataDir month) = .ok text ∧ rows? text = some rows

/-- All rows of what is delivered have sums of 64 bits. -/
def AllBounded (export? : Option (List Json)) : Prop := ∀ rows ∈ export?, ∀ row ∈ rows, Bounded row

/-- The export of a month has a row without a sum of 64 bits. -/
def Overflows (dataDir : String) (month : Month) (t : Tree) : Prop :=
  ∃ export?, Delivers dataDir month t export? ∧ ¬AllBounded export?

instance : DecidablePred AllBounded := fun export? =>
  inferInstanceAs (Decidable (∀ rows ∈ export?, ∀ row ∈ rows, Bounded row))

/-- The rows that were written on one line are delivered as they were, if their numbers are. -/
theorem rows?_compact (h : ∀ row ∈ rows, row.Ordinary) (hreread : ∀ row ∈ rows, row.reread = row)
    (hreadable : (Json.array rows).readable Json.maxDepth = true) :
    rows? (Json.array rows).compact = some rows := by
  have hrows : (Json.array rows).reread = .array rows := by
    rw [Json.reread, Json.rereadItems_eq, List.map_congr_left hreread, List.map_id']
  rw [rows?, Json.parse?_compact (.array h), hrows]
  exact if_pos hreadable

theorem monthFigures_of_missing (h : Delivers dataDir month t none) :
    monthFigures dataDir month t = .ok none := by
  rw [Delivers] at h
  simp only [monthFigures, h]

theorem monthFigures_of_rows (h : Delivers dataDir month t (some rows)) :
    monthFigures dataDir month t =
      match figures rows with
      | .ok fs => .ok (some fs)
      | .error v => .error (.violation v) := by
  obtain ⟨text, htext, hrows⟩ := h
  cases hf : figures rows <;> simp only [monthFigures, htext, hrows, hf]

/-- The figures of a month are those that its rows give, and none where there is no export. -/
theorem monthFigures_eq_ok (h : Delivers dataDir month t export?) (hb : AllBounded export?) :
    ∃ fs, monthFigures dataDir month t = .ok fs ∧ ∀ key,
      (fs.bind fun f => minutesOf? f key) = export?.bind fun rows => minutesIn? rows key := by
  cases export? with
  | none => exact ⟨none, monthFigures_of_missing h, fun _ => rfl⟩
  | some rows =>
    obtain ⟨fs, hfs, hmin⟩ := figures_eq_ok (hb rows rfl)
    exact ⟨some fs, by rw [monthFigures_of_rows h, hfs], hmin⟩

theorem monthFigures_eq_some {fs : TextMap Figure}
    (h : monthFigures dataDir month t = .ok (some fs)) :
    ∃ rows, Delivers dataDir month t (some rows) := by
  rw [monthFigures] at h
  split at h
  · exact nomatch h
  · exact nomatch h
  · rename_i text htext
    split at h
    · exact nomatch h
    · rename_i rows hrows
      exact ⟨rows, text, htext, hrows⟩

/-- The figures of a month break off at a sum that does not fit 64 bits, and there only. -/
theorem monthFigures_eq_violation : monthFigures dataDir month t = .error (.violation v) ↔
    v = .sumRange ∧ Overflows dataDir month t := by
  have hunbounded : ∀ rows, ¬AllBounded (some rows) ↔ ∃ row ∈ rows, ¬Bounded row := fun rows => by
    simp [AllBounded]
  constructor
  · intro h
    cases htext : t.readText (monthPath dataDir month) with
    | error f =>
      cases f <;> simp [monthFigures, htext] at h
    | ok text =>
      cases hrows : rows? text with
      | none => simp [monthFigures, htext, hrows] at h
      | some rows =>
        have hd : Delivers dataDir month t (some rows) := ⟨text, htext, hrows⟩
        rw [monthFigures_of_rows hd] at h
        cases hfs : figures rows with
        | ok fs => rw [hfs] at h; exact nomatch h
        | error w =>
          simp only [hfs, Except.error.injEq, Failure.violation.injEq] at h
          obtain ⟨hv, hrow⟩ := figures_eq_error_iff.mp hfs
          exact ⟨h ▸ hv, some rows, hd, (hunbounded rows).mpr hrow⟩
  · rintro ⟨rfl, export?, hd, hb⟩
    cases export? with
    | none => exact absurd (fun rows hrows => nomatch hrows) hb
    | some rows =>
      rw [monthFigures_of_rows hd, figures_of_not_bounded ((hunbounded rows).mp hb)]

/-! ## Paths -/

theorem isPlain_exportName (m : Month) : Path.isPlain (m.text ++ ".json") = true := by
  have hne : ∀ x : String, x.length < 5 → m.text ++ ".json" ≠ x := by
    rintro x hx rfl
    have hjson : ".json".length = 5 := by decide
    rw [String.length_append] at hx
    omega
  refine Path.isPlain_iff.mpr ⟨?_, hne _ (by decide), hne _ (by decide)⟩
  simp only [Path.isIdle, Bool.or_eq_false_iff, beq_eq_false_iff_ne]
  exact ⟨hne _ (by decide), hne _ (by decide)⟩

/-- The path of the directory of the exports. -/
def exportsPath (dataDir : String) : Path := (Path.ofText dataDir).stem ++ ["monthly"]

theorem monthPath_eq (dataDir : String) (m : Month) :
    monthPath dataDir m = exportsPath dataDir ++ [m.text ++ ".json"] := by
  rw [monthPath, Path.child_eq, Path.child_eq, Path.stem_concat (by decide), exportsPath]

theorem place_monthPath (dataDir : String) (m : Month) : (monthPath dataDir m).place =
    (m.text ++ ".json") :: "monthly" :: (Path.ofText dataDir).stem.place := by
  rw [monthPath_eq, Path.place_append, Place.follow_of_plain _ (isPlain_exportName m), exportsPath,
    Path.place_append, Place.follow_of_plain _ (by decide)]

theorem place_rosterPath (dataDir : String) : (rosterPath dataDir).place =
    rosterName :: (Path.ofText dataDir).stem.place := by
  rw [rosterPath, Path.child_eq, Path.place_append, Place.follow_of_plain _ (by decide)]

theorem place_monthPath_ne (h : n ≠ m) :
    (monthPath dataDir n).place ≠ (monthPath dataDir m).place := by
  rw [place_monthPath, place_monthPath]
  intro he
  exact h (Month.text_injective (String.append_left_inj _ |>.mp (List.head_eq_of_cons_eq he)))

theorem place_rosterPath_ne : (rosterPath dataDir).place ≠ (monthPath dataDir m).place := by
  rw [place_monthPath, place_rosterPath]
  intro he
  have := congrArg List.length he
  simp at this

/-! ## Another export -/

/-- The tree with `c` as the export of a month. -/
def withExport (dataDir : String) (m : Month) (c : Content) (t : Tree) : Tree :=
  t.set (monthPath dataDir m).place (.file c)

/-- Rows on one line. -/
def written (rows : List Json) : Content := .ofText (Json.array rows).compact

/-- There is an export of a month, or nothing in its place. -/
structure CanHold (dataDir : String) (m : Month) (t : Tree) : Prop where
  locate : t.locate (monthPath dataDir m) = .ok (monthPath dataDir m).place
  node : t.node? (monthPath dataDir m).place ≠ some .directory

theorem canHold_of_delivers (h : Delivers dataDir m t (some rows)) : CanHold dataDir m t := by
  obtain ⟨text, htext, -⟩ := h
  obtain ⟨hl, c, hc, -⟩ := Tree.readText_eq_ok htext
  exact ⟨hl, by rw [hc]; simp⟩

/-- Where there is no export beside another month's, there could be one. -/
theorem canHold_of_missing (h : Delivers dataDir m t (some rows)) (hn : Delivers dataDir n t none) :
    CanHold dataDir n t := by
  have hl := (canHold_of_delivers h).locate
  rw [monthPath_eq] at hl
  rw [Delivers, monthPath_eq] at hn
  obtain ⟨hl', hnone⟩ := Tree.locate_of_missing hl hn
  rw [← monthPath_eq] at hl' hnone
  exact ⟨hl', by rw [hnone]; simp⟩

section Replaced

variable (h : CanHold dataDir m t)

include h

theorem node?_withExport (r : Place) : (withExport dataDir m c t).node? r =
    if r = (monthPath dataDir m).place then some (.file c) else t.node? r :=
  Tree.node?_set_of_locate h.locate h.node r

theorem grows_withExport : t.Grows (withExport dataDir m c t) :=
  Tree.grows_of_agree (q := (monthPath dataDir m).place)
    (fun r hr => by rw [node?_withExport h, if_neg hr]) h.node

/-- The roster is the same. -/
theorem roster_withExport (month : Month) :
    roster dataDir month (withExport dataDir m c t) = roster dataDir month t := by
  have hl := h.locate
  rw [monthPath_eq] at hl
  have hread : (withExport dataDir m c t).readText (rosterPath dataDir) =
      t.readText (rosterPath dataDir) := by
    refine Tree.readText_congr hl (grows_withExport h) (fun r hr => ?_) ?_
    · rw [rosterPath, Path.child_eq, Path.mem_passes_concat] at hr
      exact hr.imp_left Path.passes_append_left
    · rw [node?_withExport h, if_neg place_rosterPath_ne]
  simp only [roster, hread]

theorem readText_withExport_of_ne (hn : n ≠ m) :
    (withExport dataDir m c t).readText (monthPath dataDir n) =
      t.readText (monthPath dataDir n) := by
  have hl := h.locate
  rw [monthPath_eq] at hl
  refine Tree.readText_congr hl (grows_withExport h) (fun r hr => ?_) ?_
  · rw [monthPath_eq, Path.mem_passes_concat, ← monthPath_eq] at hr
    exact hr
  · rw [node?_withExport h, if_neg (place_monthPath_ne hn)]

/-- The figures of other months are the same. -/
theorem monthFigures_withExport_of_ne (hn : n ≠ m) :
    monthFigures dataDir n (withExport dataDir m c t) = monthFigures dataDir n t := by
  simp only [monthFigures, readText_withExport_of_ne h hn]

theorem readText_withExport : (withExport dataDir m c t).readText (monthPath dataDir m) =
    (c.text?.map Except.ok).getD (.error .notText) :=
  Tree.readText_of_file (Tree.locate_mono (grows_withExport h) h.locate)
    (by rw [node?_withExport h, if_pos rfl])

theorem delivers_withExport (hc : c.text? = some text) (hrows : rows? text = some rows) :
    Delivers dataDir m (withExport dataDir m c t) (some rows) :=
  ⟨text, by rw [readText_withExport h, hc]; rfl, hrows⟩

theorem missing_withExport_of_ne (hn : n ≠ m) (hd : Delivers dataDir n t none) :
    Delivers dataDir n (withExport dataDir m c t) none :=
  (readText_withExport_of_ne h hn).trans hd

/-- Rows that were written on one line are delivered. -/
theorem delivers_written (ho : ∀ row ∈ rows, row.Ordinary)
    (hreread : ∀ row ∈ rows, row.reread = row)
    (hreadable : (Json.array rows).readable Json.maxDepth = true) :
    Delivers dataDir m (withExport dataDir m (written rows) t) (some rows) :=
  delivers_withExport h (Content.text?_ofText _) (rows?_compact ho hreread hreadable)

theorem monthFigures_withExport_not_text (hc : c.text? = none) :
    monthFigures dataDir m (withExport dataDir m c t) = .error (.file .notText) := by
  have hread := readText_withExport (c := c) h
  rw [hc] at hread
  simp only [monthFigures, hread, Option.map_none, Option.getD_none]

theorem monthFigures_withExport_not_rows (hc : c.text? = some text) (hrows : rows? text = none) :
    monthFigures dataDir m (withExport dataDir m c t) = .error .malformed := by
  have hread := readText_withExport (c := c) h
  rw [hc] at hread
  simp only [monthFigures, hread, Option.map_some, Option.getD_some, hrows]

end Replaced

/-! ## A data directory -/

/-- A row that gives a key its figures. -/
def givingRow (key : String) (overtime nightOvertime : Int) : Json :=
  .object [("employeeKey", .string key), ("overtime", .number (.integer overtime)),
    ("nightOvertime", .number (.integer nightOvertime))]

theorem ordinary_givingRow {key : String} {o n : Int} (ho : -2 ^ 63 ≤ o ∧ o < 2 ^ 63)
    (hn : -2 ^ 63 ≤ n ∧ n < 2 ^ 63) : (givingRow key o n).Ordinary := by
  refine .object (List.forall_mem_cons.mpr ⟨.string _, List.forall_mem_cons.mpr ⟨?_,
    List.forall_mem_cons.mpr ⟨?_, by simp⟩⟩⟩)
  · exact .integer ho.1 (by omega)
  · exact .integer hn.1 (by omega)

/-- An object of texts. -/
def textRecord (members : List (String × String)) : Json :=
  .object (members.map fun m => (m.1, .string m.2))

theorem ordinary_textRecord (members : List (String × String)) : (textRecord members).Ordinary := by
  refine .object fun m hm => ?_
  obtain ⟨e, -, rfl⟩ := List.mem_map.mp hm
  exact .string _

/-- A row that gives a key a text for its overtime. -/
def spoiltRow (key overtime : String) : Json :=
  textRecord [("employeeKey", key), ("overtime", overtime)]

def dataRosterItems : List Json :=
  [textRecord [("code", "1001"), ("key", "k1"), ("name", "Ann"), ("department", "300")],
    textRecord [("code", "1002"), ("key", "k2"), ("name", "Bob"), ("department", "300"),
      ("chat_id", "bob@example.com")]]

/-- A data directory with a roster of two and no exports. -/
def dataTree : Tree :=
  ⟨[("data", .directory
    [("employees.json", .file (written dataRosterItems)), ("monthly", .directory [])])]⟩

/-- The roster of that directory. -/
def dataRoster : List RosterEntry :=
  [⟨"1001", "k1", "Ann", "300", ""⟩, ⟨"1002", "k2", "Bob", "300", "bob@example.com"⟩]

def dataMonth : Month := (Month.of? 2026 10).getD default

theorem roster_dataTree (month : Month) : roster "data" month dataTree = .ok dataRoster := by
  have hread : dataTree.readText (rosterPath "data") =
      .ok (Json.array dataRosterItems).compact := by
    rw [Tree.readText_of_file (c := written dataRosterItems) (by decide +kernel) rfl, written,
      Content.text?_ofText, Option.map_some, Option.getD_some]
  have hparse : Json.parse? (Json.array dataRosterItems).compact = some (.array dataRosterItems) :=
    Json.parse?_compact (.array (List.forall_mem_cons.mpr
      ⟨ordinary_textRecord _, List.forall_mem_singleton.mpr (ordinary_textRecord _)⟩))
  exact roster_of_readText hread hparse (by decide +kernel)

theorem canHold_dataTree : CanHold "data" dataMonth dataTree :=
  ⟨by decide +kernel, by decide +kernel⟩

theorem missing_dataTree : Delivers "data" dataMonth.previous dataTree none := by
  show _ = _
  decide +kernel

def paidRows : List Json := [givingRow "k1" 500 40]

/-- That directory with an export. -/
def paidTree : Tree := withExport "data" dataMonth (written paidRows) dataTree

theorem roster_paidTree (month : Month) : roster "data" month paidTree = .ok dataRoster :=
  (roster_withExport canHold_dataTree month).trans (roster_dataTree month)

theorem delivers_paidTree : Delivers "data" dataMonth paidTree (some paidRows) :=
  delivers_written canHold_dataTree
    (List.forall_mem_singleton.mpr (ordinary_givingRow (by decide) (by decide)))
    (List.forall_mem_singleton.mpr rfl) (by decide)

theorem missing_paidTree : Delivers "data" dataMonth.previous paidTree none :=
  missing_withExport_of_ne canHold_dataTree (Month.previous_ne _) missing_dataTree

end Export

end OvertimeNotice
