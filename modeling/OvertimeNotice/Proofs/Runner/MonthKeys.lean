import OvertimeNotice.Proofs.Runner.Archive
import OvertimeNotice.Proofs.State.DatabaseSet
import OvertimeNotice.Proofs.State.FlagStore

/-!
# Months under keys of their own

What is kept of a month is found again by a text of the month: rows and flag files by `YYYY-MM`,
the file of results by `YYYYMM`. Each text belongs to one month, whatever the sign of its year and
however many digits it has. The second has no hyphen, but the number of the month takes its last two
characters, and the year the others.

* `Numeral.padded_injective`, `Numeral.paddedInt_injective`: zeros in front merge no numbers.
* `Month.compact_injective`: the text without a hyphen.
* `Database.month_of_mem_markRows`: rows of marks.
* `Results.fileName_injective`: files of results.
* `Month.keys_apart`: no two months share a key, a row or a file.
-/

namespace OvertimeNotice

namespace Numeral

theorem padded_injective (w : Nat) : Function.Injective (padded w) := by
  intro n k h
  have hvalue := congrArg ofDigits h
  rwa [ofDigits_padded, ofDigits_padded] at hvalue

/-- Digits do not begin with a sign. -/
theorem padded_ne_hyphen_cons (w n : Nat) (cs : List Char) : padded w n ≠ '-' :: cs := by
  intro h
  have hdigit : '-'.isDigit = true := isDigit_of_mem_padded (h ▸ List.mem_cons_self)
  exact absurd hdigit (by decide)

/-- The sign counts in the width and still tells the numbers apart. -/
theorem paddedInt_injective (w : Nat) : Function.Injective (paddedInt w) := by
  intro i j h
  unfold paddedInt at h
  by_cases hi : i < 0 <;> by_cases hj : j < 0
  · rw [if_pos hi, if_pos hj, List.cons_eq_cons] at h
    have := padded_injective _ h.2
    omega
  · rw [if_pos hi, if_neg hj] at h
    exact absurd h.symm (padded_ne_hyphen_cons _ _ _)
  · rw [if_neg hi, if_pos hj] at h
    exact absurd h (padded_ne_hyphen_cons _ _ _)
  · rw [if_neg hi, if_neg hj] at h
    have := padded_injective _ h
    omega

end Numeral

/-- A text without a hyphen belongs to one month: its last two characters are the number. -/
theorem Month.compact_injective : Function.Injective Month.compact := by
  intro a b h
  have hlength : ∀ m : Month, (Numeral.padded 2 m.number).length = 2 := fun m =>
    Numeral.length_padded (m.number_le.trans_lt (by decide))
  have hchars := String.ofList_injective h
  obtain ⟨hyear, hnumber⟩ := List.append_inj' hchars ((hlength a).trans (hlength b).symm)
  have hyear := Numeral.paddedInt_injective 4 hyear
  have hnumber := Numeral.padded_injective 2 hnumber
  refine Month.index_injective ?_
  rw [Month.index, Month.index, hyear, hnumber]

/-! ## Rows and files -/

/-- The rows of a month have its text. -/
theorem Database.month_of_mem_markRows {t : Tables} {month : Month} {r : MarkRow}
    (h : r ∈ markRows t month) : r.month = month.text := by
  rw [markRows, List.mem_mergeSort, List.mem_filter, beq_iff_eq] at h
  exact h.2

theorem Results.fileName_injective : Function.Injective Results.fileName := by
  intro a b h
  have hstart := (String.append_left_inj _).mp h
  exact Month.compact_injective ((String.append_right_inj _).mp hstart)

/-- **No two months share anything that is kept of them.** Both texts belong to one month each, for
every year. So no row of the marks is found for two months, no two flag files have one place, none
is the temporary file of another, and no two files of results have one place. -/
theorem Month.keys_apart :
    Function.Injective Month.text ∧ Function.Injective Month.compact ∧
      Function.Injective MarkRow.ofMark ∧
      (∀ (t : Tables) (a b : Month),
        a = b ∨ (Database.markRows t a).Disjoint (Database.markRows t b)) ∧
      (∀ s : FlagFiles, Function.Injective fun m => (s.path m).place) ∧
      (∀ (s : FlagFiles) (a b : Month), (s.path a).place ≠ (s.temporary b).place) ∧
      ∀ cacheDir : String, Function.Injective fun m => (Results.path cacheDir m).place := by
  refine ⟨fun _ _ => Month.text_injective, Month.compact_injective, MarkRow.ofMark_injective,
    fun t a b => ?_, fun s a b h => ?_, fun s a b h => ?_, fun cacheDir a b h => ?_⟩
  · by_cases hab : a = b
    · exact .inl hab
    · refine .inr fun r ha hb => hab (Month.text_injective ?_)
      rw [← Database.month_of_mem_markRows ha, Database.month_of_mem_markRows hb]
  · simp only [FlagFiles.place_path] at h
    exact FlagFiles.fileName_injective (List.cons_eq_cons.mp h).1
  · rw [FlagFiles.place_path, FlagFiles.place_temporary] at h
    exact FlagFiles.fileName_ne_temporary a b (List.cons_eq_cons.mp h).1
  · simp only [Results.place_path] at h
    exact Results.fileName_injective (List.cons_eq_cons.mp h).1

/-- The sign is one of the four characters that a year has at least. -/
example : (⟨-26, 1, by decide, by decide⟩ : Month).compact = "-02601" := by decide +kernel

end OvertimeNotice
