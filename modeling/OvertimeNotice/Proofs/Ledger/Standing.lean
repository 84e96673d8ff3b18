import OvertimeNotice.State.Ledger

/-!
# What a ledger takes a month to hold

A ledger answers about a month from the marks it keeps of it, and loads them first if it keeps
none. `Ledger.standing` is what it answers from in either case, so the operations can be described
without a case split on what is loaded.

* `standing_loaded`: loading a month changes nothing that the ledger answers.
* `hasNotified_eq`, `markNotified_of_mem`, `markNotified_of_not_mem`: the operations by way of
  `standing`.
* `mem_standing_markNotified`: a mark stands afterwards, whether it could be written or not.
-/

namespace OvertimeNotice

namespace Ledger

variable {σ : Type} (b : Backend σ)

/-- The marks that the ledger takes a month to hold: those it keeps, or those it would load. A month
that cannot be loaded counts as empty. -/
def standing (month : Month) (l : Ledger σ) : MonthMarks :=
  match l.cached? month with
  | some ms => ms
  | none =>
    match (b.load month l.store).1 with
    | .ok entries => marksOf month entries
    | .error _ => []

variable {b} {month : Month} {l : Ledger σ}

theorem standing_of_cached {ms : MonthMarks} (h : l.cached? month = some ms) :
    l.standing b month = ms := by
  simp only [standing, h]

theorem loaded_of_cached {ms : MonthMarks} (h : l.cached? month = some ms) :
    l.loaded b month = l := by
  simp only [loaded, h]

theorem mem_marksOf {es : List Mark} {p : String × Marker} :
    p ∈ marksOf month es ↔ ⟨p.1, month, p.2⟩ ∈ es := by
  simp only [marksOf, List.mem_map, List.mem_filter, beq_iff_eq]
  constructor
  · rintro ⟨e, ⟨he, rfl⟩, rfl⟩
    exact he
  · intro h
    exact ⟨_, ⟨h, rfl⟩, rfl⟩

/-! ## Loading -/

theorem marks_loaded : (l.loaded b month).marks month = l.standing b month := by
  cases hc : l.cached? month with
  | some ms => rw [loaded_of_cached hc, standing_of_cached hc, marks, hc, Option.getD_some]
  | none =>
    simp only [loaded, standing, hc]
    rcases b.load month l.store with ⟨es | f, s⟩ <;> simp [marks, cached?]

theorem cached?_loaded : (l.loaded b month).cached? month = some (l.standing b month) := by
  rw [cached?_loaded_self, marks_loaded]

theorem standing_loaded : (l.loaded b month).standing b month = l.standing b month :=
  standing_of_cached cached?_loaded

/-- The backend is asked for a month that is not kept, and for no other. -/
theorem store_loaded : (l.loaded b month).store =
    if (l.cached? month).isSome then l.store else (b.load month l.store).2 := by
  cases hc : l.cached? month with
  | some ms => simp [loaded_of_cached hc]
  | none =>
    simp only [loaded, hc, Option.isSome_none, Bool.false_eq_true, if_false]
    rcases b.load month l.store with ⟨es | f, s⟩ <;> rfl

/-! ## Asking and marking -/

variable {employee : String} {marker : Marker}

theorem hasNotified_eq : l.hasNotified b employee month marker =
    ((l.standing b month).contains (employee, marker), l.loaded b month) := by
  rw [hasNotified, ← marks_loaded]

theorem markNotified_of_mem (h : (employee, marker) ∈ l.standing b month) :
    l.markNotified b employee month marker = (.ok (), l.loaded b month) := by
  rw [← marks_loaded] at h
  simp only [markNotified, List.contains_iff_mem.mpr h, if_true]

/-- A new mark is kept first and written after. -/
theorem markNotified_of_not_mem (h : (employee, marker) ∉ l.standing b month) :
    l.markNotified b employee month marker =
      let kept := (l.loaded b month).setMarks month ((employee, marker) :: l.standing b month)
      let r := b.upsert { employee, month, marker } (l.loaded b month).store
      (r.1, { kept with store := r.2 }) := by
  rw [← marks_loaded] at h
  have hc : ((l.loaded b month).marks month).contains (employee, marker) = false := by
    simpa using h
  simp only [markNotified, hc, Bool.false_eq_true, if_false]
  rw [marks_loaded]
  rfl

theorem cached?_markNotified : (l.markNotified b employee month marker).2.cached? month =
    some (if (employee, marker) ∈ l.standing b month then l.standing b month
      else (employee, marker) :: l.standing b month) := by
  split
  case isTrue h => rw [markNotified_of_mem h, cached?_loaded]
  case isFalse h =>
    rw [markNotified_of_not_mem h]
    exact (cached?_setMarks ..).trans (if_pos rfl)

/-- A mark stands from then on, and all that stood before. -/
theorem mem_standing_markNotified {p : String × Marker} :
    p ∈ (l.markNotified b employee month marker).2.standing b month ↔
      p = (employee, marker) ∨ p ∈ l.standing b month := by
  rw [standing_of_cached cached?_markNotified]
  split
  case isTrue h =>
    constructor
    · exact .inr
    · rintro (rfl | hp)
      · exact h
      · exact hp
  case isFalse h => rw [List.mem_cons]

/-- Asking about a month and marking in it leaves the other months as they were kept. -/
theorem cached?_markNotified_of_ne {m : Month} (h : m ≠ month) :
    (l.markNotified b employee month marker).2.cached? m = l.cached? m := by
  by_cases hm : (employee, marker) ∈ l.standing b month
  · rw [markNotified_of_mem hm, cached?_loaded_of_ne b h]
  · rw [markNotified_of_not_mem hm]
    refine (cached?_setMarks ..).trans ?_
    rw [if_neg h, cached?_loaded_of_ne b h]

/-- What is kept after a mark: the mark, and what was kept or loaded before. -/
theorem mem_marks_markNotified {e : Mark} {p : String × Marker} :
    p ∈ (l.markNotified b e.employee e.month e.marker).2.marks month ↔
      month = e.month ∧ p = (e.employee, e.marker) ∨ p ∈ (l.loaded b e.month).marks month := by
  by_cases hm : month = e.month
  · subst hm
    rw [marks, cached?_markNotified, marks_loaded, Option.getD_some, eq_self_iff_true, true_and]
    split
    case isTrue h => exact ⟨.inr, fun hp => hp.elim (fun hp => hp ▸ h) id⟩
    case isFalse => rw [List.mem_cons]
  · simp only [marks, cached?_markNotified_of_ne hm, cached?_loaded_of_ne b hm, hm, false_and,
      false_or]

end Ledger

end OvertimeNotice
