import OvertimeNotice.Proofs.Json.Records
import OvertimeNotice.Proofs.Json.RoundTrip
import OvertimeNotice.Proofs.State.Durable
import OvertimeNotice.Proofs.State.MarkTable
import OvertimeNotice.Proofs.Text.Maps
import OvertimeNotice.State.FlagFiles

/-!
# The content of a month's file

* `MonthFile.parse_pretty`: the text of a content reads back as the content.
* `MonthFile.mem_marks_insert`: the marks of a content with one more key.
-/

namespace OvertimeNotice

open Json.Fields (required_self required_of_ne optional_self)

namespace MonthFile

variable {f : MonthFile} {e x : Mark} {month : Month}

/-! ## Text -/

theorem legible_toJson (f : MonthFile) : f.toJson.Legible := by
  refine .object fun m hm => ?_
  rcases List.mem_cons.mp hm with rfl | hm
  · cases f.month with
    | none => exact .null
    | some month => exact .string _
  · rw [List.mem_singleton.mp hm]
    refine .object fun m hm => ?_
    obtain ⟨e, -, rfl⟩ := List.mem_map.mp hm
    exact Json.legible_texts _

theorem fields?_toJson (f : MonthFile) : f.toJson.fields? ["month", "entries"] =
    some [("month", .given (.nullable Month.toJson f.month)),
      ("entries", .given (.object (f.entries.toList.map fun e => (e.1, .texts e.2.toList))))] := rfl

theorem ofJson?_toJson (h : ∀ m ∈ f.month, m.IsPlain) : ofJson? f.toJson = some f := by
  have hmonth : (Json.nullable Month.toJson f.month).orNull? Month.ofJson? = some f.month :=
    Json.orNull?_nullable (fun m hm => Month.ofJson?_toJson (h m hm))
      fun m _ => by simp [Month.toJson]
  rw [ofJson?, fields?_toJson, Option.bind_eq_bind, Option.bind_some]
  simp (disch := decide) only [optional_self, required_self, required_of_ne, hmonth,
    Json.textMap?_map f.entries Json.textSet?_texts]
  rfl

/-- A content is read as a whole: not at all if its month does not read back. -/
theorem ofJson?_toJson_of_not (hf : f.month = some month) (h : ¬month.IsPlain) :
    ofJson? f.toJson = none := by
  have hmonth : (Json.nullable Month.toJson f.month).orNull? Month.ofJson? = none := by
    rw [hf]
    exact congrArg (Option.map some) (Month.ofJson?_toJson_of_not h)
  rw [ofJson?, fields?_toJson, Option.bind_eq_bind, Option.bind_some, optional_self, hmonth]
  rfl

/-- The text of a content reads back as the content. -/
theorem parse_pretty (h : ∀ m ∈ f.month, m.IsPlain) :
    (Json.parse? f.toJson.pretty).bind ofJson? = some f := by
  rw [Json.parse?_pretty f.legible_toJson, Option.bind_some, ofJson?_toJson h]

theorem parse_pretty_of_not (hf : f.month = some month) (h : ¬month.IsPlain) :
    (Json.parse? f.toJson.pretty).bind ofJson? = none := by
  rw [Json.parse?_pretty f.legible_toJson, Option.bind_some, ofJson?_toJson_of_not hf h]

/-! ## Marks -/

theorem mem_marks : x ∈ f.marks month ↔ x.month = month ∧
    ∃ k ∈ f.keysOf x.employee, Marker.ofKey? k = some x.marker := by
  have hkeys : ∀ employee k, k ∈ f.keysOf employee ↔
      ∃ ks, (employee, ks) ∈ f.entries.toList ∧ k ∈ ks.toList := by
    intro employee k
    rw [keysOf]
    cases hf : f.entries.find? employee with
    | none =>
      refine iff_of_false TextSet.not_mem_empty ?_
      rintro ⟨ks, hks, -⟩
      rw [TextMap.mem_toList, hf] at hks
      exact nomatch hks
    | some ks =>
      refine ⟨fun hk => ⟨ks, TextMap.mem_toList.mpr hf, hk⟩, ?_⟩
      rintro ⟨ks', hks', hk⟩
      rw [TextMap.mem_toList, hf, Option.some.injEq] at hks'
      exact hks' ▸ hk
  simp only [marks, List.mem_flatMap, List.mem_filterMap, Option.map_eq_some_iff]
  constructor
  · rintro ⟨⟨employee, ks⟩, he, k, hk, marker, hmarker, rfl⟩
    exact ⟨rfl, k, (hkeys employee k).mpr ⟨ks, he, hk⟩, hmarker⟩
  · rintro ⟨rfl, k, hk, hmarker⟩
    obtain ⟨ks, he, hk⟩ := (hkeys _ _).mp hk
    exact ⟨_, he, k, hk, x.marker, hmarker, rfl⟩

theorem keysOf_insert (f : MonthFile) (e : Mark) (employee : String) :
    (f.insert e).keysOf employee =
      if employee = e.employee then (f.keysOf e.employee).insert e.marker.key
      else f.keysOf employee := by
  rw [keysOf, insert, TextMap.find?_insert]
  split <;> rfl

theorem mem_marks_insert (h : e.marker ≠ .level .none) :
    x ∈ (f.insert e).marks e.month ↔ x = e ∨ x ∈ f.marks e.month := by
  rw [mem_marks, mem_marks, keysOf_insert]
  constructor
  · rintro ⟨hx, k, hk, hmarker⟩
    split at hk
    · rename_i he
      rcases TextSet.mem_insert.mp hk with rfl | hk
      · left
        rw [Marker.ofKey?_key h, Option.some.injEq] at hmarker
        cases x
        cases e
        simp_all
      · exact .inr ⟨hx, k, he ▸ hk, hmarker⟩
    · exact .inr ⟨hx, k, hk, hmarker⟩
  · rintro (rfl | ⟨hx, k, hk, hmarker⟩)
    · refine ⟨rfl, _, ?_, Marker.ofKey?_key h⟩
      rw [if_pos rfl]
      exact TextSet.mem_insert.mpr (.inl rfl)
    · refine ⟨hx, k, ?_, hmarker⟩
      split
      · rename_i he
        exact TextSet.mem_insert.mpr (.inr (he ▸ hk))
      · exact hk

/-- A content that has the key of a mark has the mark. -/
theorem mem_marks_of_contains (h : e.marker ≠ .level .none)
    (hk : (f.keysOf e.employee).contains e.marker.key = true) : e ∈ f.marks e.month :=
  mem_marks.mpr ⟨rfl, _, TextSet.contains_iff.mp hk, Marker.ofKey?_key h⟩

end MonthFile

end OvertimeNotice
