import OvertimeNotice.Proofs.Calendar.MonthText

/-!
# The order of months and of their texts

Texts of months are compared from the left, so years are compared as decimals of a fraction: year
10000 comes before year 2026, and of two years before zero the later one comes first. The two orders
agree on two months exactly if their years are in step; years of four digits are.

* `Month.text_lt_text_iff`: the order of texts, for every year.
* `Month.text_injective`: a text belongs to one month.
* `Month.InStep`, `Month.inStep_iff`: where the two orders agree.
* `Month.text_lt_text`: they agree in the years from 0 to 9999.
-/

namespace OvertimeNotice

namespace Month

variable {a b m n : Month}

/-! ## Texts of two months -/

/-- The digits of the year, without its sign. -/
def yearDigits (m : Month) : List Char :=
  Numeral.padded (if m.year < 0 then 3 else 4) m.year.natAbs

/-- How many digits the year is written with. -/
def places (m : Month) : Nat := m.yearDigits.length

/-- The year of `a` without its sign, in the unit that makes it a fraction beside the year
of `b`. -/
def lead (a b : Month) : Nat := a.year.natAbs * 10 ^ b.places

theorem textChars_of_neg (h : m.year < 0) :
    m.textChars = '-' :: (m.yearDigits ++ '-' :: Numeral.padded 2 m.number) := by
  simp only [textChars, Numeral.paddedInt, yearDigits, h, if_true, List.cons_append]

theorem textChars_of_not_neg (h : ¬m.year < 0) :
    m.textChars = m.yearDigits ++ '-' :: Numeral.padded 2 m.number := by
  rw [textChars_of_nonneg (Int.not_lt.mp h), yearDigits, if_neg h]

theorem endsDigits_hyphen (cs : List Char) : Numeral.EndsDigits ('-' :: cs) := by
  intro c hc
  cases hc
  decide

theorem number_lt_number :
    Numeral.padded 2 a.number < Numeral.padded 2 b.number ↔ a.number < b.number := by
  have ha := a.number_le
  have hb := b.number_le
  exact Numeral.padded_lt_padded (by omega) (by omega)

/-- Without signs: the years as fractions, then the fewer digits, then the numbers. -/
theorem digits_lt_digits : a.yearDigits ++ '-' :: Numeral.padded 2 a.number <
      b.yearDigits ++ '-' :: Numeral.padded 2 b.number ↔
    lead a b < lead b a ∨ lead a b = lead b a ∧
      (a.places < b.places ∨ a.places = b.places ∧ a.number < b.number) := by
  have ha : ∀ c ∈ a.yearDigits, c.isDigit = true := fun c => Numeral.isDigit_of_mem_padded
  have hb : ∀ c ∈ b.yearDigits, c.isDigit = true := fun c => Numeral.isDigit_of_mem_padded
  have hva : Numeral.ofDigits a.yearDigits = a.year.natAbs := Numeral.ofDigits_padded _ _
  have hvb : Numeral.ofDigits b.yearDigits = b.year.natAbs := Numeral.ofDigits_padded _ _
  rw [Numeral.digits_lt_digits ha hb (endsDigits_hyphen _) (endsDigits_hyphen _), hva, hvb,
    List.cons_lt_cons_self, number_lt_number, lead, lead, places, places]

theorem hyphen_lt_digits (cs : List Char) :
    '-' :: cs < a.yearDigits ++ '-' :: Numeral.padded 2 a.number := by
  cases hy : a.yearDigits with
  | nil => exact absurd hy (Numeral.padded_ne_nil _ _)
  | cons y ys =>
    exact (endsDigits_hyphen cs).lt_cons
      (Numeral.isDigit_of_mem_padded (hy ▸ List.mem_cons_self)) _

/-- The order of texts: years before zero come first; of years on one side of zero those that are
smaller as fractions, then those of fewer digits; and in one year the earlier month. -/
theorem text_lt_text_iff : a.text < b.text ↔ a.year < 0 ∧ 0 ≤ b.year ∨
    (a.year < 0 ↔ b.year < 0) ∧ (lead a b < lead b a ∨ lead a b = lead b a ∧
      (a.places < b.places ∨ a.places = b.places ∧ a.number < b.number)) := by
  rw [String.lt_iff, text, text, String.toList_ofList, String.toList_ofList]
  by_cases ha : a.year < 0 <;> by_cases hb : b.year < 0
  · rw [textChars_of_neg ha, textChars_of_neg hb, List.cons_lt_cons_self, digits_lt_digits]
    simp [ha, hb]
  · rw [textChars_of_neg ha, textChars_of_not_neg hb]
    simp [ha, hyphen_lt_digits, Int.not_lt.mp hb]
  · rw [textChars_of_not_neg ha, textChars_of_neg hb]
    simp [ha, hb, List.lt_asymm (hyphen_lt_digits _)]
  · rw [textChars_of_not_neg ha, textChars_of_not_neg hb, digits_lt_digits]
    simp [ha, hb]

theorem natAbs_eq_of_lead (h : lead a b = lead b a) (hp : a.places = b.places) :
    a.year.natAbs = b.year.natAbs := by
  rw [lead, lead, hp] at h
  exact Nat.eq_of_mul_eq_mul_right (Nat.pow_pos (by decide)) h

/-- A text belongs to one month. -/
theorem text_injective (h : a.text = b.text) : a = b := by
  have hab : ¬a.text < b.text := h ▸ String.lt_irrefl _
  have hba : ¬b.text < a.text := h ▸ String.lt_irrefl _
  rw [text_lt_text_iff] at hab hba
  have hyear : lead a b = lead b a → a.places = b.places → a.year.natAbs = b.year.natAbs :=
    natAbs_eq_of_lead
  refine index_injective ?_
  simp only [index]
  omega

/-! ## Where the two orders agree -/

/-- If the year of `a` is the earlier one, it is the smaller fraction as well. -/
def LeadsTo (a b : Month) : Prop :=
  a.year < b.year → (0 ≤ a.year → lead a b ≤ lead b a) ∧ (b.year < 0 → lead a b < lead b a)

/-- The years of two months are in the order of the fractions they are read as. -/
def InStep (a b : Month) : Prop := a.LeadsTo b ∧ b.LeadsTo a

instance : Decidable (a.LeadsTo b) := inferInstanceAs (Decidable (_ → _))

instance : Decidable (a.InStep b) := instDecidableAnd

/-- Of one fraction the shorter writing has the smaller number. -/
theorem natAbs_le_of_lead (h : lead a b = lead b a) (hp : a.places ≤ b.places) :
    a.year.natAbs ≤ b.year.natAbs := by
  have hpow : 10 ^ a.places ≤ 10 ^ b.places := Nat.pow_le_pow_right (by decide) hp
  rw [lead, lead] at h
  have := h.trans_le (Nat.mul_le_mul_left b.year.natAbs hpow)
  exact Nat.le_of_mul_le_mul_right this (Nat.pow_pos (by decide))

theorem leadsTo_iff (h : a.year < b.year) : a.LeadsTo b ↔ a.text < b.text := by
  have hle : lead a b = lead b a → a.places ≤ b.places → a.year.natAbs ≤ b.year.natAbs :=
    natAbs_le_of_lead
  have hge : lead b a = lead a b → b.places ≤ a.places → b.year.natAbs ≤ a.year.natAbs :=
    natAbs_le_of_lead
  rw [text_lt_text_iff, LeadsTo]
  omega

/-- **The two orders agree on two months exactly if their years are in step.** -/
theorem inStep_iff : a.InStep b ↔ (a.text < b.text ↔ a < b) := by
  have ha := a.number_pos
  have ha' := a.number_le
  have hb := b.number_pos
  have hb' := b.number_le
  have hlt : a < b ↔ a.index < b.index := Iff.rfl
  simp only [index] at hlt
  rcases Int.lt_trichotomy a.year b.year with h | h | h
  · have hab : a < b := hlt.mpr (by omega)
    have hba : b.LeadsTo a := fun h' => absurd h (Int.lt_asymm h')
    simp only [InStep, leadsTo_iff h, hba, hab, and_true, iff_true]
  · have hdigits : a.yearDigits = b.yearDigits := by rw [yearDigits, yearDigits, h]
    have hplaces : a.places = b.places := congrArg List.length hdigits
    have hlead : lead a b = lead b a := by rw [lead, lead, h, hplaces]
    have htext : a.text < b.text ↔ a < b := by
      rw [text_lt_text_iff, hlt]
      omega
    have hstep : a.InStep b := ⟨fun h' => absurd h h'.ne, fun h' => absurd h h'.ne'⟩
    simp only [hstep, htext]
  · have hab : ¬a < b := hlt.not.mpr (by omega)
    have hba : a.LeadsTo b := fun h' => absurd h (Int.lt_asymm h')
    have hne : a.text ≠ b.text := fun he => by
      rw [text_injective he] at h
      exact Int.lt_irrefl _ h
    have hflip : b.text < a.text ↔ ¬a.text < b.text :=
      ⟨String.lt_asymm, fun h' => Std.lt_of_le_of_ne (String.not_lt.mp h') hne.symm⟩
    simp only [InStep, leadsTo_iff h, hba, hab, true_and, iff_false, hflip]

/-- Years of one width that are not negative are in step. -/
theorem inStep_of_places_eq (ha : 0 ≤ a.year) (hb : 0 ≤ b.year) (hp : a.places = b.places) :
    a.InStep b := by
  have hle : ∀ {x y : Month}, 0 ≤ x.year → x.places = y.places → x.LeadsTo y := fun hx hxy h =>
    ⟨fun _ => by rw [lead, lead, hxy]; exact Nat.mul_le_mul_right _ (by omega), fun _ => by omega⟩
  exact ⟨hle ha hp, hle hb hp.symm⟩

theorem IsCommon.places (h : m.IsCommon) : m.places = 4 := by
  obtain ⟨h₀, h₉⟩ := h
  rw [Month.places, yearDigits, if_neg (by omega)]
  exact Numeral.length_padded (by omega)

/-- In the years from 0 to 9999 the order of texts is the order of months. -/
theorem text_lt_text (hm : m.IsCommon) (hn : n.IsCommon) : m.text < n.text ↔ m < n :=
  inStep_iff.mp (inStep_of_places_eq hm.1 hn.1 (hm.places.trans hn.places.symm))

end Month

end OvertimeNotice
