import Mathlib.Data.List.TakeWhile
import OvertimeNotice.Proofs.Calendar.TextOrder

/-!
# Texts that are no months

A text is taken apart at its first hyphen. Four things can be wrong with it, and it is told the
first one that is: it has no hyphen, what stands before the hyphen is no number of 31 bits, what
stands after it is no number of 32 bits, or that number is not that of a month.

* `Numeral.IsNumber`, `Numeral.read?_eq_none`: what reads as a number at all.
* `Month.CutAs`, `Month.exists_cutAs`: a text and its parts around its first hyphen.
* `Month.Faulty`, `Month.parse_eq_error`: what is wrong with a text; `Month.parse_text_eq`: what is
  wrong with the text of a month.
* `MonthFault.message_inj`: the words for two faults of one text differ.
* `Month.parse_verdict`: every text, whether it reads as a month, and what it is told if not.
-/

namespace OvertimeNotice

namespace Numeral

/-- A text spells a number of at most `limit`. -/
def IsNumber (limit : Nat) (cs : List Char) : Prop := ∃ n ≤ limit, Spells cs n

theorem read?_eq_none {limit : Nat} {cs : List Char} :
    read? limit cs = none ↔ ¬IsNumber limit cs := by
  simp only [Option.eq_none_iff_forall_ne_some, ne_eq, read?_eq_some, IsNumber, not_exists,
    and_comm]

theorem isNumber_of_read? {limit n : Nat} {cs : List Char} (h : read? limit cs = some n) :
    IsNumber limit cs := by
  obtain ⟨hspells, hle⟩ := read?_eq_some.mp h
  exact ⟨n, hle, hspells⟩

end Numeral

open Numeral (Spells IsNumber max31 max32)

namespace MonthFault

/-- The text that is no month. -/
def text : MonthFault → String
  | noHyphen s | badYear s | badNumber s | outOfRange s => s

/-- What is said of the text. -/
def words : MonthFault → String
  | noHyphen _ => "expected YYYY-MM, got "
  | badYear _ => "bad year in "
  | badNumber _ => "bad month in "
  | outOfRange _ => "month out of range in "

theorem message_eq (f : MonthFault) : f.message = f.words ++ Text.quoted f.text := by
  cases f <;> rfl

theorem ext_words {f g : MonthFault} (hwords : f.words = g.words) (htext : f.text = g.text) :
    f = g := by
  cases f <;> cases g <;> simp_all [words, text]

/-- The words for two faults of one text differ. -/
theorem message_inj {f g : MonthFault} (h : f.text = g.text) : f.message = g.message ↔ f = g := by
  refine ⟨fun hm => ?_, congrArg message⟩
  rw [message_eq, message_eq, h, String.append_left_inj] at hm
  exact ext_words hm h

end MonthFault

namespace Month

variable {s : String} {year number : List Char} {f : MonthFault} {m : Month}

/-! ## The first hyphen -/

/-- The text has its first hyphen between `year` and `number`. -/
def CutAs (s : String) (year number : List Char) : Prop :=
  s.toList = year ++ '-' :: number ∧ '-' ∉ year

theorem exists_cutAs : (∃ year number, CutAs s year number) ↔ '-' ∈ s.toList := by
  constructor
  · rintro ⟨year, number, h, -⟩
    rw [h]
    exact List.mem_append_right _ List.mem_cons_self
  · exact List.eq_append_cons_of_mem

/-- The parts are read in turn, and then the number of the month is looked at. -/
theorem CutAs.parse_eq (h : CutAs s year number) : parse s =
    match Numeral.read? max31 year with
    | none => .error (.badYear s)
    | some y =>
      match Numeral.read? max32 number with
      | none => .error (.badNumber s)
      | some n =>
        match of? y n with
        | none => .error (.outOfRange s)
        | some m => .ok m := by
  obtain ⟨hs, hyear⟩ := h
  unfold parse
  cases hy : Numeral.read? max31 year with
  | none => simp only [hs, takeWhile_hyphen hyear, dropWhile_hyphen hyear, hy]
  | some y =>
    cases hn : Numeral.read? max32 number with
    | none => simp only [hs, takeWhile_hyphen hyear, dropWhile_hyphen hyear, hy, hn]
    | some n =>
      cases hof : of? y n <;>
        simp only [hs, takeWhile_hyphen hyear, dropWhile_hyphen hyear, hy, hn, hof]

theorem parse_of_not_mem (h : '-' ∉ s.toList) : parse s = .error (.noHyphen s) := by
  have hdrop : s.toList.dropWhile (· ≠ '-') = [] :=
    List.dropWhile_eq_nil_iff.mpr fun c hc => decide_eq_true fun he => h (he ▸ hc)
  unfold parse
  rw [hdrop]

theorem of?_eq_none {y : Int} {n : Nat} : of? y n = none ↔ ¬(1 ≤ n ∧ n ≤ 12) := by
  unfold of?
  split <;> simp [*]

/-! ## Faults -/

/-- What is wrong with a text: of the things that can be, the first one. -/
inductive Faulty (s : String) : MonthFault → Prop where
  | noHyphen (h : '-' ∉ s.toList) : Faulty s (.noHyphen s)
  | badYear {year number : List Char} (hs : CutAs s year number) (h : ¬IsNumber max31 year) :
    Faulty s (.badYear s)
  | badNumber {year number : List Char} (hs : CutAs s year number) (hy : IsNumber max31 year)
    (h : ¬IsNumber max32 number) : Faulty s (.badNumber s)
  | outOfRange {year number : List Char} {n : Nat} (hs : CutAs s year number)
    (hy : IsNumber max31 year) (hn : Spells number n) (hle : n ≤ max32)
    (h : ¬(1 ≤ n ∧ n ≤ 12)) : Faulty s (.outOfRange s)

theorem Faulty.text (h : Faulty s f) : f.text = s := by
  cases h <;> rfl

theorem Faulty.parse_eq (h : Faulty s f) : parse s = .error f := by
  cases h with
  | noHyphen h => exact parse_of_not_mem h
  | badYear hs h => rw [hs.parse_eq, Numeral.read?_eq_none.mpr h]
  | badNumber hs hy h =>
    obtain ⟨y, hle, hspells⟩ := hy
    have hyear := Numeral.read?_eq_some.mpr ⟨hspells, hle⟩
    have hnumber := Numeral.read?_eq_none.mpr h
    simp only [hs.parse_eq, hyear, hnumber]
  | outOfRange hs hy hn hle h =>
    obtain ⟨y, hle', hspells⟩ := hy
    have hyear := Numeral.read?_eq_some.mpr ⟨hspells, hle'⟩
    have hnumber := Numeral.read?_eq_some.mpr ⟨hn, hle⟩
    simp only [hs.parse_eq, hyear, hnumber, of?_eq_none.mpr h]

theorem faulty_of_parse (h : parse s = .error f) : Faulty s f := by
  by_cases hmem : '-' ∈ s.toList
  · obtain ⟨year, number, hs⟩ := exists_cutAs.mpr hmem
    rw [hs.parse_eq] at h
    cases hyear : Numeral.read? max31 year with
    | none =>
      simp only [hyear, Except.error.injEq] at h
      exact h ▸ .badYear hs (Numeral.read?_eq_none.mp hyear)
    | some y =>
      have hy := Numeral.isNumber_of_read? hyear
      cases hnumber : Numeral.read? max32 number with
      | none =>
        simp only [hyear, hnumber, Except.error.injEq] at h
        exact h ▸ .badNumber hs hy (Numeral.read?_eq_none.mp hnumber)
      | some n =>
        obtain ⟨hspells, hle⟩ := Numeral.read?_eq_some.mp hnumber
        cases hof : of? y n with
        | none =>
          simp only [hyear, hnumber, hof, Except.error.injEq] at h
          exact h ▸ .outOfRange hs hy hspells hle (of?_eq_none.mp hof)
        | some m => simp only [hyear, hnumber, hof, reduceCtorEq] at h
  · rw [parse_of_not_mem hmem, Except.error.injEq] at h
    exact h ▸ .noHyphen hmem

/-- What a text is told is what is wrong with it. -/
theorem parse_eq_error : parse s = .error f ↔ Faulty s f := ⟨faulty_of_parse, Faulty.parse_eq⟩

/-- What keeps the text of a month from reading back is its year. A sign is taken for the hyphen
after the year, of which nothing is left. -/
theorem parse_text_of_not (h : ¬m.IsPlain) : parse m.text = .error (.badYear m.text) := by
  rw [parse_eq_error]
  by_cases hneg : m.year < 0
  · -- Nothing stands before the sign, which is no number.
    have hcut : CutAs m.text [] (m.yearDigits ++ '-' :: Numeral.padded 2 m.number) :=
      ⟨by rw [text, String.toList_ofList, textChars_of_neg hneg, List.nil_append],
        List.not_mem_nil⟩
    refine .badYear hcut ?_
    rintro ⟨n, -, hspells⟩
    exact hspells.ne_nil rfl
  · -- The digits of the year spell no smaller number than the year.
    have hpadded := Numeral.spells_padded 4 m.year.natAbs
    have hcut : CutAs m.text (Numeral.padded 4 m.year.natAbs) (Numeral.padded 2 m.number) :=
      ⟨by rw [text, String.toList_ofList, textChars_of_nonneg (Int.not_lt.mp hneg)],
        hpadded.not_mem_hyphen⟩
    refine .badYear hcut ?_
    rintro ⟨n, hle, hspells⟩
    have hvalue := hspells.unique hpadded
    exact h ⟨Int.not_lt.mp hneg, by omega⟩

/-- The text of a month is read as the month, or its year is refused. -/
theorem parse_text_eq (m : Month) :
    parse m.text = if m.IsPlain then .ok m else .error (.badYear m.text) := by
  split
  · exact IsPlain.parse_text ‹_›
  · exact parse_text_of_not ‹_›

/-- The month that a text reads as, or what the text is told. -/
def verdict (s : String) : Except String Month := (parse s).mapError MonthFault.message

theorem verdict_eq_ok : verdict s = .ok m ↔ m.Spelled s.toList := by
  rw [← parse_eq_ok, String.ofList_toList, verdict]
  cases parse s <;> simp [Except.mapError]

/-- The words tell the fault. -/
theorem verdict_eq_error (hf : f.text = s) : verdict s = .error f.message ↔ Faulty s f := by
  rw [← parse_eq_error, verdict]
  cases h : parse s with
  | ok m => simp [Except.mapError]
  | error g =>
    have hg : g.text = f.text := (faulty_of_parse h).text.trans hf.symm
    simp only [Except.mapError, Except.error.injEq, MonthFault.message_inj hg]

/-- **What reads as a month, and what every other text is told.** A month is spelled by a year and a
number with a hyphen between, each of them digits that may have zeros and a plus sign in front. Any
other text is told that it has no hyphen or else, of its parts around the first one, that the year
is no number of 31 bits, or else that the month is none of 32 bits, or else that there is no such
month. -/
theorem parse_verdict (s : String) :
    (∀ m, verdict s = .ok m ↔ m.Spelled s.toList) ∧
      (verdict s = .error ("expected YYYY-MM, got " ++ Text.quoted s) ↔ '-' ∉ s.toList) ∧
      (verdict s = .error ("bad year in " ++ Text.quoted s) ↔
        ∃ year number, CutAs s year number ∧ ¬IsNumber max31 year) ∧
      (verdict s = .error ("bad month in " ++ Text.quoted s) ↔
        ∃ year number, CutAs s year number ∧ IsNumber max31 year ∧ ¬IsNumber max32 number) ∧
      (verdict s = .error ("month out of range in " ++ Text.quoted s) ↔
        ∃ year number, CutAs s year number ∧ IsNumber max31 year ∧
          ∃ n ≤ max32, Spells number n ∧ ¬(1 ≤ n ∧ n ≤ 12)) := by
  refine ⟨fun m => verdict_eq_ok, ?_, ?_, ?_, ?_⟩
  · refine (verdict_eq_error (f := .noHyphen s) rfl).trans ⟨?_, .noHyphen⟩
    rintro ⟨h⟩
    exact h
  · refine (verdict_eq_error (f := .badYear s) rfl).trans ⟨?_, ?_⟩
    · rintro ⟨⟩
      exact ⟨_, _, ‹_›, ‹_›⟩
    · rintro ⟨year, number, hs, h⟩
      exact .badYear hs h
  · refine (verdict_eq_error (f := .badNumber s) rfl).trans ⟨?_, ?_⟩
    · rintro ⟨⟩
      exact ⟨_, _, ‹_›, ‹_›, ‹_›⟩
    · rintro ⟨year, number, hs, hy, h⟩
      exact .badNumber hs hy h
  · refine (verdict_eq_error (f := .outOfRange s) rfl).trans ⟨?_, ?_⟩
    · rintro ⟨⟩
      exact ⟨_, _, ‹_›, ‹_›, _, ‹_›, ‹_›, ‹_›⟩
    · rintro ⟨year, number, hs, hy, n, hle, hn, h⟩
      exact .outOfRange hs hy hn hle h

/-- Where the year and the month are both wrong, the year is told. -/
example : parse "2026.10-13" = .error (.badYear "2026.10-13") := by decide +kernel

end Month

end OvertimeNotice
