import OvertimeNotice.Proofs.State.PlainSet
import OvertimeNotice.Proofs.State.Serving

/-!
# A database as a set of marks

The table of marks has a row for each mark of a set and no others, so its answers are those of the
set. That holds however the database is kept: with a log, without one, or in memory.

* `Tables.Shows`: the rows are those of a set; `Shows.upserted`, `Shows.purged` for what becomes of
  them, whatever the months.
* `Tables.Holds`: besides, the marks read back; `lists_marksOf` for what is read of them.
* `World.keeps_backend`: as a backend, it keeps a set of marks.
-/

namespace OvertimeNotice

/-! ## Rows -/

namespace MarkRow

variable {r r' r'' : MarkRow}

theorem le_iff : r.le r' = true ↔
    r.employee < r'.employee ∨ r.employee = r'.employee ∧ r.marker ≤ r'.marker := by
  simp [le]

theorem le_trans (h : r.le r' = true) (h' : r'.le r'' = true) : r.le r'' = true := by
  rw [le_iff] at h h' ⊢
  rcases h with h | ⟨he, h⟩
  · rcases h' with h' | ⟨he', -⟩
    · exact .inl (String.lt_trans h h')
    · exact .inl (he' ▸ h)
  · rcases h' with h' | ⟨he', h'⟩
    · exact .inl (he ▸ h')
    · exact .inr ⟨he.trans he', String.le_trans h h'⟩

theorem le_total (r r' : MarkRow) : (r.le r' || r'.le r) = true := by
  rw [Bool.or_eq_true, le_iff, le_iff]
  by_cases he : r.employee = r'.employee
  · rcases String.le_total r.marker r'.marker with h | h
    · exact .inl (.inr ⟨he, h⟩)
    · exact .inr (.inr ⟨he.symm, h⟩)
  · rcases String.le_total r.employee r'.employee with h | h
    · exact .inl (.inl (Std.lt_of_le_of_ne h he))
    · exact .inr (.inl (Std.lt_of_le_of_ne h (Ne.symm he)))

theorem ofMark_injective : Function.Injective ofMark := by
  intro x y h
  obtain ⟨he, hm, hk⟩ := MarkRow.mk.inj h
  cases x
  cases y
  obtain rfl := Month.text_injective hm
  obtain rfl := Marker.key_injective hk
  obtain rfl := he
  rfl

end MarkRow

/-! ## Tables -/

namespace Tables

/-- The rows of the table of marks are those of a set of marks, each once. -/
structure Shows (t : Tables) (marks : Finset Mark) : Prop where
  nodup : t.marks.Nodup
  rows : ∀ r, r ∈ t.marks ↔ ∃ x ∈ marks, MarkRow.ofMark x = r

/-- The rows of the table of marks stand for a set of marks. -/
structure Holds (t : Tables) (marks : Finset Mark) : Prop where
  common : ∀ x ∈ marks, x.IsCommon
  nodup : t.marks.Nodup
  rows : ∀ r, r ∈ t.marks ↔ ∃ x ∈ marks, MarkRow.ofMark x = r

variable {t : Tables} {marks : Finset Mark} {month : Month} {e : Mark}

theorem shows_empty (h : t.marks = []) : t.Shows ∅ :=
  ⟨by simp [h], by simp [h]⟩

namespace Shows

theorem length (h : t.Shows marks) : t.marks.length = marks.card :=
  length_eq_card h.nodup (MarkRow.ofMark_injective.injOn) h.rows

theorem upserted (h : t.Shows marks) (e : Mark) : (t.upserted e).Shows (insert e marks) := by
  refine ⟨?_, fun r => ?_⟩
  · unfold Tables.upserted
    split
    case isTrue => exact h.nodup
    case isFalse hn =>
      rw [List.contains_iff_mem] at hn
      refine List.nodup_append.mpr ⟨h.nodup, by simp, fun r hr r' hr' => ?_⟩
      rw [List.mem_singleton.mp hr']
      rintro rfl
      exact hn hr
  · rw [mem_marks_upserted, h.rows]
    constructor
    · rintro (rfl | ⟨x, hx, rfl⟩)
      · exact ⟨e, Finset.mem_insert_self .., rfl⟩
      · exact ⟨x, Finset.mem_insert_of_mem hx, rfl⟩
    · rintro ⟨x, hx, rfl⟩
      rcases Finset.mem_insert.mp hx with rfl | hx
      · exact .inl rfl
      · exact .inr ⟨x, hx, rfl⟩

/-- A purge drops the marks of months whose text comes before that of the month. -/
theorem purged (h : t.Shows marks) (month : Month) :
    (t.purged month).Shows {x ∈ marks | ¬x.month.text < month.text} := by
  refine ⟨h.nodup.filter _, fun r => ?_⟩
  rw [Tables.purged, List.mem_filter, h.rows, Bool.not_eq_true', decide_eq_false_iff_not]
  constructor
  · rintro ⟨⟨x, hx, rfl⟩, hr⟩
    exact ⟨x, Finset.mem_filter.mpr ⟨hx, hr⟩, rfl⟩
  · rintro ⟨x, hx, rfl⟩
    obtain ⟨hx, hr⟩ := Finset.mem_filter.mp hx
    exact ⟨⟨x, hx, rfl⟩, hr⟩

/-- A purge counts the marks that it drops. -/
theorem length_sub_purged (h : t.Shows marks) (month : Month) :
    t.marks.length - (t.purged month).marks.length =
      {x ∈ marks | x.month.text < month.text}.card := by
  rw [h.length, (h.purged month).length, ← Finset.card_filter_add_card_filter_not (s := marks)
    fun x => x.month.text < month.text]
  exact Nat.add_sub_cancel_right ..

end Shows

theorem Holds.shows (h : t.Holds marks) : t.Shows marks := ⟨h.nodup, h.rows⟩

theorem Shows.holds (h : t.Shows marks) (hc : ∀ x ∈ marks, x.IsCommon) : t.Holds marks :=
  ⟨hc, h.nodup, h.rows⟩

theorem holds_empty (h : t.marks = []) : t.Holds ∅ := (shows_empty h).holds (by simp)

/-- The rows of a month are in order, and none comes twice. -/
theorem pairwise_markRows (h : t.marks.Nodup) (month : Month) :
    (Database.markRows t month).Pairwise fun r r' => r.le r' = true ∧ r ≠ r' := by
  have hrows : (t.marks.filter fun r => r.month == month.text).Nodup := h.filter _
  have hsorted : (Database.markRows t month).Pairwise fun r r' => r.le r' = true :=
    @List.pairwise_mergeSort MarkRow MarkRow.le (fun _ _ _ => MarkRow.le_trans) MarkRow.le_total _
  exact hsorted.and ((List.mergeSort_perm _ MarkRow.le).nodup_iff.mpr hrows)

theorem Holds.mem_marksOf (h : t.Holds marks) (hm : month.IsCommon) (x : Mark) :
    x ∈ t.marksOf month ↔ x ∈ marks ∧ x.month = month := by
  rw [Tables.mem_marksOf, and_comm]
  refine and_congr_left fun hx => ?_
  subst hx
  constructor
  · rintro ⟨r, hr, hmonth, hemployee, hmarker⟩
    obtain ⟨y, hy, rfl⟩ := (h.rows r).mp hr
    have hmonth : y.month = x.month := Month.text_injective hmonth
    rw [MarkRow.ofMark, Marker.ofKey?_key (h.common y hy).2, Option.some.injEq] at hmarker
    have hxy : y = x := by
      cases x
      cases y
      simp_all [MarkRow.ofMark]
    exact hxy ▸ hy
  · intro hx
    exact ⟨_, (h.rows _).mpr ⟨x, hx, rfl⟩, rfl, rfl, Marker.ofKey?_key (h.common x hx).2⟩

theorem Holds.lists_marksOf (h : t.Holds marks) (hm : month.IsCommon) :
    Lists marks month (t.marksOf month) := by
  refine ⟨?_, h.mem_marksOf hm⟩
  rw [marksOf, List.pairwise_filterMap]
  have hrow : ∀ r ∈ Database.markRows t month, r.month = month.text ∧
      ∃ x ∈ marks, MarkRow.ofMark x = r := by
    intro r hr
    obtain ⟨hmem, hmonth⟩ := List.mem_filter.mp (List.mem_mergeSort.mp hr)
    exact ⟨beq_iff_eq.mp hmonth, (h.rows r).mp hmem⟩
  refine (pairwise_markRows h.nodup month).imp_of_mem fun {r r'} hr hr' hle x hx y hy => ?_
  obtain ⟨hmonth, x', hx', rfl⟩ := hrow r hr
  obtain ⟨hmonth', y', hy', rfl⟩ := hrow r' hr'
  simp only [MarkRow.ofMark, Marker.ofKey?_key (h.common x' hx').2,
    Marker.ofKey?_key (h.common y' hy').2, Option.map_some, Option.some.injEq] at hx hy
  obtain ⟨hle, hne⟩ := hle
  subst hx hy
  rcases MarkRow.le_iff.mp hle with hlt | ⟨heq, hkey⟩
  · exact .inl hlt
  · refine .inr ⟨heq, Std.lt_of_le_of_ne hkey fun hk => hne ?_⟩
    exact MarkRow.mk.injEq .. ▸ ⟨heq, hmonth.trans hmonth'.symm, hk⟩

theorem Holds.upserted (h : t.Holds marks) (he : e.IsCommon) :
    (t.upserted e).Holds (insert e marks) := by
  refine (h.shows.upserted e).holds fun x hx => ?_
  rcases Finset.mem_insert.mp hx with rfl | hx
  · exact he
  · exact h.common x hx

/-- The order of texts is that of months, so a purge drops the marks of the months before. -/
theorem Holds.purged (h : t.Holds marks) (hm : month.IsCommon) :
    (t.purged month).Holds {x ∈ marks | month ≤ x.month} ∧
      t.marks.length - (t.purged month).marks.length = {x ∈ marks | x.month < month}.card := by
  have hold : ∀ x ∈ marks, x.month.text < month.text ↔ x.month < month := fun x hx =>
    Month.text_lt_text (h.common x hx).1 hm
  have hkept : {x ∈ marks | ¬x.month.text < month.text} = {x ∈ marks | month ≤ x.month} :=
    Finset.filter_congr fun x hx => (hold x hx).not.trans Int.not_lt
  have hshows := h.shows.purged month
  rw [h.shows.length_sub_purged, Finset.filter_congr hold]
  rw [hkept] at hshows
  exact ⟨hshows.holds fun x hx => h.common x (Finset.mem_filter.mp hx).1, rfl⟩

end Tables

/-! ## Databases that take calls -/

namespace World

/-- The tables stand for a set of marks, and the database takes calls. -/
def Holds (w : World) (marks : Finset Mark) : Prop :=
  ∃ tables : Tables, Serving (.ready tables) w ∧ tables.Holds marks

theorem keeps_backend : backend.Keeps Holds where
  load {w marks month} hw hm := by
    obtain ⟨tables, h, hmarks⟩ := hw
    exact ⟨_, _, h.load_eq month, hmarks.lists_marksOf hm, tables, h.met, hmarks⟩
  upsert {w marks e} hw he := by
    obtain ⟨tables, h, hmarks⟩ := hw
    obtain ⟨v, hv, h'⟩ := h.upsert_eq e
    exact ⟨v, hv, _, h', hmarks.upserted he⟩
  purge {w marks month} hw hm := by
    obtain ⟨tables, h, hmarks⟩ := hw
    obtain ⟨hmarks', hcount⟩ := hmarks.purged hm
    obtain ⟨v, hv, h'⟩ := h.purge_eq month
    rw [hcount] at hv
    exact ⟨v, hv, _, h', hmarks'⟩

end World

end OvertimeNotice
