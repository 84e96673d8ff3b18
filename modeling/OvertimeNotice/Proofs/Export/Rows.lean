import Mathlib.Data.List.Induction
import OvertimeNotice.Export
import OvertimeNotice.Proofs.Json.Records

/-!
# What the rows of an export say

A row is an object, of whose members of one name the last counts, or the array of at most three
fields. Figures that it does not give are zero. Of several rows that name a key the last decides,
whether it can be read or not.

* `Export.spelled?`, `Workings.ofJson?_eq`: the rows that can be read, and what they say.
* `Export.named?`, `Export.minutesIn?`: the key of a row and the minutes of a key.
* `Export.figures_eq_ok`, `Export.figures_eq_error_iff`: the figures of all rows.
-/

namespace OvertimeNotice

/-! ## One row -/

namespace Export

/-- A figure; one that is not given is zero. -/
def amount? : Option Json → Option Int
  | none => some 0
  | some j => j.int64?

/-- What the three parts of a row say: a key and two figures. -/
def ofParts? (key overtime nightOvertime : Option Json) : Option Workings := do
  let key ← key.bind Json.text?
  let overtime ← amount? overtime
  let nightOvertime ← amount? nightOvertime
  return { key, overtime, nightOvertime }

/-- What a row says, if it can be read. -/
def spelled? : Json → Option Workings
  | .object members =>
    ofParts? (members.reverse.lookup "employeeKey") (members.reverse.lookup "overtime")
      (members.reverse.lookup "nightOvertime")
  | .array items => if items.length ≤ 3 then ofParts? items[0]? items[1]? items[2]? else none
  | _ => none

end Export

namespace Workings

open Export

def fieldNames : List String := ["employeeKey", "overtime", "nightOvertime"]

theorem ofJson?_of_fields (row : Json) {fs : Json.Fields}
    (h : row.lastMembers.fields? fieldNames = some fs) :
    ofJson? row = ofParts? (fs.cell "employeeKey").given? (fs.cell "overtime").given?
      (fs.cell "nightOvertime").given? := by
  have hrequired : fs.required "employeeKey" Json.text? =
      (fs.cell "employeeKey").given?.bind Json.text? := by
    unfold Json.Fields.required
    cases fs.cell "employeeKey" <;> rfl
  have hdefault : ∀ name, fs.withDefault name 0 Json.int64? = amount? (fs.cell name).given? := by
    intro name
    unfold Json.Fields.withDefault
    cases fs.cell name <;> rfl
  rw [fieldNames] at h
  rw [ofJson?, h, Option.bind_eq_bind, Option.bind_some, hrequired, hdefault, hdefault]
  rfl

theorem ofJson?_of_no_fields (row : Json) (h : row.lastMembers.fields? fieldNames = none) :
    ofJson? row = none := by
  rw [fieldNames] at h
  rw [ofJson?, h]
  rfl

/-- The rows that can be read. -/
theorem ofJson?_eq (row : Json) : ofJson? row = spelled? row := by
  cases row with
  | object members =>
    obtain ⟨fs, hfs, hcell⟩ :=
      Json.fields?_object (Json.unrepeated_toList (.ofList members) fieldNames)
    rw [ofJson?_of_fields (.object members) hfs, hcell _ (by decide), hcell _ (by decide),
      hcell _ (by decide)]
    simp only [spelled?, ← TextMap.find?_ofList]
    rfl
  | array items =>
    by_cases hl : items.length ≤ 3
    · rw [ofJson?_of_fields (.array items) (if_pos hl), spelled?, if_pos hl]
      match items, hl with
      | [], _ => rfl
      | [_], _ => rfl
      | [_, _], _ => rfl
      | [_, _, _], _ => rfl
    · rw [ofJson?_of_no_fields (.array items) (if_neg hl), spelled?, if_neg hl]
  | null => rfl
  | bool b => rfl
  | number n => rfl
  | string s => rfl
  | illFormed => rfl

end Workings

namespace Export

/-- The member of a row that would be its key. -/
def keyMember? : Json → Option String
  | .object members => (members.reverse.lookup "employeeKey").bind Json.text?
  | _ => none

/-- The key that a row names. A row that cannot be read may name one nevertheless. -/
def named? (row : Json) : Option String :=
  match spelled? row with
  | some w => some w.key
  | none => keyMember? row

/-- The figures of a row that can be read have a sum of 64 bits. -/
def Bounded (row : Json) : Prop :=
  ∀ w ∈ spelled? row, -2 ^ 63 ≤ w.overtime + w.nightOvertime ∧
    w.overtime + w.nightOvertime < 2 ^ 63

instance : DecidablePred Bounded := fun row =>
  inferInstanceAs (Decidable (∀ w ∈ spelled? row, _ ∧ _))

/-- The minutes that a row gives its key. -/
def minutesAt? (row : Json) : Option Int :=
  (spelled? row).map fun w => w.overtime + w.nightOvertime

theorem keyOf?_eq (row : Json) : keyOf? row = keyMember? row := by
  cases row with
  | object members => simp only [keyOf?, keyMember?, Json.lastMembers, ← TextMap.find?_ofList]; rfl
  | _ => rfl

/-- What a row says of its key. -/
def figureOf (row : Json) : Figure :=
  match minutesAt? row with
  | some m => .minutes m
  | none => .malformed

variable {row : Json} {rows : List Json} {v : Violation}

theorem addRow_eq (h : Bounded row) (figures : TextMap Figure) : addRow figures row =
    .ok ((named? row).elim figures fun key => figures.insert key (figureOf row)) := by
  unfold addRow
  rw [Workings.ofJson?_eq]
  cases hs : spelled? row with
  | some w =>
    obtain ⟨hlow, hhigh⟩ := h w hs
    have htotal : w.total = .ok (w.overtime + w.nightOvertime) := if_pos ⟨hlow, by omega⟩
    simp only [htotal, named?, figureOf, minutesAt?, hs]
    rfl
  | none =>
    simp only [named?, figureOf, minutesAt?, hs, keyOf?_eq]
    cases keyMember? row <;> rfl

theorem addRow_of_not_bounded (h : ¬Bounded row) (figures : TextMap Figure) :
    addRow figures row = .error .sumRange := by
  obtain ⟨w, hs, hw⟩ : ∃ w, spelled? row = some w ∧ ¬(-2 ^ 63 ≤ w.overtime + w.nightOvertime ∧
      w.overtime + w.nightOvertime < 2 ^ 63) := by
    simpa only [Bounded, Option.mem_def, not_forall, exists_prop] using h
  have htotal : w.total = .error .sumRange := if_neg fun hr => hw ⟨hr.1, by omega⟩
  simp only [addRow, Workings.ofJson?_eq, hs, htotal]
  rfl

/-! ## All rows -/

/-- The minutes of a key in rows: of those that name it the last decides, and there are none where
no row names it. -/
def minutesIn? (rows : List Json) (key : String) : Option Int :=
  match (rows.filter fun row => named? row == some key).getLast? with
  | some row => minutesAt? row
  | none => some 0

theorem minutesIn?_concat (rows : List Json) (row : Json) (key : String) :
    minutesIn? (rows ++ [row]) key =
      if named? row = some key then minutesAt? row else minutesIn? rows key := by
  unfold minutesIn?
  rw [List.filter_append]
  by_cases h : named? row = some key
  · rw [if_pos h, List.filter_cons_of_pos (by simpa using h), List.filter_nil,
      List.getLast?_concat]
  · rw [if_neg h, List.filter_cons_of_neg (by simpa using h), List.filter_nil, List.append_nil]

theorem figures_concat (rows : List Json) (row : Json) :
    figures (rows ++ [row]) = (figures rows).bind fun fs => addRow fs row := by
  rw [figures, List.foldlM_append]
  cases h : figures rows with
  | error v => rw [figures] at h; rw [h]; rfl
  | ok fs =>
    rw [figures] at h
    rw [h]
    show addRow fs row >>= _ = addRow fs row
    simp

theorem minutesOf?_insert_figureOf (figures : TextMap Figure) (row : Json) (k key : String) :
    minutesOf? (figures.insert k (figureOf row)) key =
      if k = key then minutesAt? row else minutesOf? figures key := by
  unfold minutesOf? figureOf
  rw [TextMap.find?_insert]
  by_cases hk : k = key
  · rw [if_pos hk, if_pos hk.symm]
    cases minutesAt? row <;> rfl
  · rw [if_neg hk, if_neg (Ne.symm hk)]

/-- The last row that names a key decides. -/
theorem figures_eq_ok (h : ∀ row ∈ rows, Bounded row) :
    ∃ fs, figures rows = .ok fs ∧ ∀ key, minutesOf? fs key = minutesIn? rows key := by
  induction rows using List.reverseRecOn with
  | nil => exact ⟨_, rfl, fun _ => rfl⟩
  | append_singleton rows row ih =>
    obtain ⟨hrows, hrow⟩ := List.forall_mem_append.mp h
    obtain ⟨fs, hfs, hmin⟩ := ih hrows
    refine ⟨_, by rw [figures_concat, hfs, Except.bind, addRow_eq (hrow row (by simp))],
      fun key => ?_⟩
    rw [minutesIn?_concat]
    cases hn : named? row with
    | none => exact hmin key
    | some k =>
      rw [Option.elim_some, minutesOf?_insert_figureOf, hmin]
      simp only [Option.some.injEq]

theorem figures_of_not_bounded (h : ∃ row ∈ rows, ¬Bounded row) :
    figures rows = .error .sumRange := by
  induction rows using List.reverseRecOn with
  | nil => simp at h
  | append_singleton rows row ih =>
    rw [figures_concat]
    by_cases hrows : ∃ r ∈ rows, ¬Bounded r
    · rw [ih hrows]
      rfl
    · have hrow : ¬Bounded row := by
        obtain ⟨r, hr, hb⟩ := h
        rcases List.mem_append.mp hr with hr | hr
        · exact absurd ⟨r, hr, hb⟩ hrows
        · exact List.mem_singleton.mp hr ▸ hb
      simp only [not_exists, not_and, not_not] at hrows
      obtain ⟨fs, hfs, -⟩ := figures_eq_ok hrows
      rw [hfs]
      exact addRow_of_not_bounded hrow fs

/-- There are no figures where a sum does not fit 64 bits, and only there. -/
theorem figures_eq_error_iff :
    figures rows = .error v ↔ v = .sumRange ∧ ∃ row ∈ rows, ¬Bounded row := by
  by_cases h : ∃ row ∈ rows, ¬Bounded row
  · rw [figures_of_not_bounded h, Except.error.injEq, eq_comm]
    exact (and_iff_left h).symm
  · refine iff_of_false (fun he => ?_) fun hv => h hv.2
    simp only [not_exists, not_and, not_not] at h
    obtain ⟨fs, hfs, -⟩ := figures_eq_ok h
    rw [hfs] at he
    exact nomatch he

end Export

end OvertimeNotice
