import OvertimeNotice.Calendar.Month
import OvertimeNotice.Proofs.Text.DigitOrder

/-!
# Months and their texts

Numbers up to a width of digits are written with that many digits. What is read as a number, and
what as a month, is told by its form: which characters stand in it and in which order. Many texts
read as one month. That of a month is among them unless its year is negative.

* `Numeral.padded_lt_padded`: digits of one width are in the order of their numbers.
* `Numeral.Spells`, `Numeral.read?_eq_some`: the texts of a number.
* `Month.Spelled`, `Month.parse_eq_ok`: the texts of a month.
* `Month.IsPlain.parse_text`, `Month.ofJson?_toJson`: a text without a sign reads back as its month.
* `Month.not_spelled_of_neg`, `Month.isPlain_of_spelled`: a text with a sign reads as no month.
-/

namespace OvertimeNotice

/-! ## Digits of one width -/

namespace Numeral

/-- The last digit stands last, whatever is padded in front. -/
theorem padded_succ (w n : Nat) :
    padded (w + 2) n = padded (w + 1) (n / 10) ++ [Nat.digitChar (n % 10)] := by
  unfold padded zeroPad natDigits
  by_cases h : n < 10
  · rw [Nat.toDigits_of_lt_base h, Nat.div_eq_of_lt h, Nat.mod_eq_of_lt h, Nat.toDigits_zero]
    simp [List.replicate_succ']
  · rw [Nat.toDigits_of_base_le (by decide) (Nat.le_of_not_lt h)]
    simp

theorem length_padded {w n : Nat} (h : n < 10 ^ (w + 1)) : (padded (w + 1) n).length = w + 1 := by
  induction w generalizing n with
  | zero =>
    have h : n < 10 := by simpa using h
    rw [padded, natDigits, zeroPad, Nat.toDigits_of_lt_base h]
    rfl
  | succ w ih =>
    have hn : n / 10 < 10 ^ (w + 1) := by rw [Nat.pow_succ] at h; omega
    rw [padded_succ, List.length_append, ih hn, List.length_singleton]

theorem isDigit_of_mem_padded {w n : Nat} {c : Char} (h : c ∈ padded w n) : c.isDigit = true := by
  rcases List.mem_append.mp h with h | h
  · rw [List.eq_of_mem_replicate h]
    rfl
  · exact isDigit_of_mem_natDigits h

/-- Digits of one width are in the order of their numbers. -/
theorem padded_lt_padded {w n m : Nat} (hn : n < 10 ^ (w + 1)) (hm : m < 10 ^ (w + 1)) :
    padded (w + 1) n < padded (w + 1) m ↔ n < m := by
  have hnil : EndsDigits [] := nofun
  have h := digits_lt_digits (fun c => isDigit_of_mem_padded (w := w + 1) (n := n))
    (fun c => isDigit_of_mem_padded (w := w + 1) (n := m)) hnil hnil
  rw [List.append_nil, List.append_nil, ofDigits_padded, ofDigits_padded, length_padded hn,
    length_padded hm, Nat.mul_lt_mul_right (Nat.pow_pos (by decide))] at h
  rw [h]
  simp

theorem padded_ne_nil (w n : Nat) : padded w n ≠ [] :=
  List.append_ne_nil_of_right_ne_nil _ (natDigits_ne_nil n)

/-! ## What reads as a number -/

variable {limit n : Nat} {cs : List Char}

/-- One digit or more with the value `n`, zeros in front or not, maybe after a plus sign. -/
def Spells (cs : List Char) (n : Nat) : Prop :=
  ∃ ds, (cs = ds ∨ cs = '+' :: ds) ∧ ds ≠ [] ∧ (∀ c ∈ ds, c.isDigit = true) ∧ ofDigits ds = n

theorem readDigits?_eq_some : readDigits? limit cs = some n ↔
    cs ≠ [] ∧ (∀ c ∈ cs, c.isDigit = true) ∧ ofDigits cs = n ∧ n ≤ limit := by
  unfold readDigits?
  rw [Option.ite_none_right_eq_some, Option.some.injEq, List.all_eq_true]
  constructor
  · rintro ⟨⟨hne, hall, hle⟩, rfl⟩
    exact ⟨hne, hall, rfl, hle⟩
  · rintro ⟨hne, hall, rfl, hle⟩
    exact ⟨⟨hne, hall, hle⟩, rfl⟩

/-- A text is read as its value, if that is within the limit. -/
theorem read?_eq_some : read? limit cs = some n ↔ Spells cs n ∧ n ≤ limit := by
  unfold read?
  rw [readDigits?_eq_some]
  constructor
  · rintro ⟨hne, hall, hn, hle⟩
    refine ⟨⟨_, ?_, hne, hall, hn⟩, hle⟩
    by_cases hplus : cs.head? = some '+'
    · right
      obtain ⟨rest, rfl⟩ := List.head?_eq_some_iff.mp hplus
      rfl
    · left
      rw [if_neg hplus]
  · rintro ⟨⟨ds, hcs, hne, hall, hn⟩, hle⟩
    have hds : (if cs.head? = some '+' then cs.tail else cs) = ds := by
      rcases hcs with rfl | rfl
      · rw [if_neg]
        intro hplus
        exact absurd (hall _ (List.mem_of_head? hplus)) (by decide)
      · rfl
    rw [hds]
    exact ⟨hne, hall, hn, hle⟩

theorem Spells.ne_nil (h : Spells cs n) : cs ≠ [] := by
  obtain ⟨ds, rfl | rfl, hne, -, -⟩ := h
  · exact hne
  · simp

theorem Spells.not_mem_hyphen (h : Spells cs n) : '-' ∉ cs := by
  obtain ⟨ds, hcs, -, hall, -⟩ := h
  have hds : '-' ∉ ds := fun hmem => absurd (hall _ hmem) (by decide)
  rcases hcs with rfl | rfl
  · exact hds
  · rw [List.mem_cons, not_or]
    exact ⟨by decide, hds⟩

theorem spells_padded (w n : Nat) : Spells (padded w n) n :=
  ⟨_, .inl rfl, padded_ne_nil w n, fun _ => isDigit_of_mem_padded, ofDigits_padded w n⟩

theorem Spells.unique {k : Nat} (h : Spells cs n) (h' : Spells cs k) : n = k := by
  have hn : read? (max n k) cs = some n := read?_eq_some.mpr ⟨h, Nat.le_max_left n k⟩
  have hk : read? (max n k) cs = some k := read?_eq_some.mpr ⟨h', Nat.le_max_right n k⟩
  exact Option.some.inj (hn.symm.trans hk)

end Numeral

namespace Month

/-- A month of a year that is written with four digits and no sign. -/
def IsCommon (m : Month) : Prop := 0 ≤ m.year ∧ m.year ≤ 9999

instance (m : Month) : Decidable m.IsCommon := instDecidableAnd

variable {m : Month} {cs year number : List Char}

theorem textChars_of_nonneg (h : 0 ≤ m.year) :
    m.textChars = Numeral.padded 4 m.year.natAbs ++ '-' :: Numeral.padded 2 m.number := by
  rw [textChars, Numeral.paddedInt, if_neg (by omega)]

/-- A month of a year that is written without a sign and has 31 bits. -/
def IsPlain (m : Month) : Prop := 0 ≤ m.year ∧ m.year ≤ Numeral.max31

instance (m : Month) : Decidable m.IsPlain := instDecidableAnd

theorem IsCommon.isPlain (h : m.IsCommon) : m.IsPlain :=
  ⟨h.1, Int.le_trans h.2 (by decide)⟩

/-! ## What reads as a month -/

/-- The year and the number of a month, with a hyphen between. -/
def Spelled (m : Month) (cs : List Char) : Prop :=
  m.IsPlain ∧ ∃ year number, cs = year ++ '-' :: number ∧
    Numeral.Spells year m.year.toNat ∧ Numeral.Spells number m.number

/-- The first hyphen stands after the year. -/
theorem takeWhile_hyphen (h : '-' ∉ year) :
    (year ++ '-' :: number).takeWhile (· ≠ '-') = year := by
  have hyear : ∀ c ∈ year, decide (c ≠ '-') = true := fun c hc =>
    decide_eq_true fun he => h (he ▸ hc)
  rw [List.takeWhile_append_of_pos hyear]
  simp

theorem dropWhile_hyphen (h : '-' ∉ year) :
    (year ++ '-' :: number).dropWhile (· ≠ '-') = '-' :: number := by
  have hyear : ∀ c ∈ year, decide (c ≠ '-') = true := fun c hc =>
    decide_eq_true fun he => h (he ▸ hc)
  rw [List.dropWhile_append_of_pos hyear]
  simp

theorem parse_of_spelled (h : m.Spelled cs) : parse (String.ofList cs) = .ok m := by
  obtain ⟨⟨h₀, h₉⟩, year, number, rfl, hyear, hnumber⟩ := h
  have hread : Numeral.read? Numeral.max31 year = some m.year.toNat :=
    Numeral.read?_eq_some.mpr ⟨hyear, by omega⟩
  have hread' : Numeral.read? Numeral.max32 number = some m.number :=
    Numeral.read?_eq_some.mpr ⟨hnumber, by have := m.number_le; rw [Numeral.max32]; omega⟩
  have hof : of? m.year.toNat m.number = some m := by
    rw [of?, dif_pos ⟨m.number_pos, m.number_le⟩, Int.toNat_of_nonneg h₀]
  unfold parse
  rw [String.toList_ofList, takeWhile_hyphen hyear.not_mem_hyphen,
    dropWhile_hyphen hyear.not_mem_hyphen]
  simp only [hread, hread', hof]

/-- What stands in a text that reads as a month, before its first hyphen and after. -/
theorem read_of_parse (h : parse (String.ofList cs) = .ok m) : ∃ number y n,
    cs.dropWhile (· ≠ '-') = '-' :: number ∧
    Numeral.read? Numeral.max31 (cs.takeWhile (· ≠ '-')) = some y ∧
    Numeral.read? Numeral.max32 number = some n ∧ of? y n = some m := by
  unfold parse at h
  rw [String.toList_ofList] at h
  cases hdrop : cs.dropWhile (· ≠ '-') with
  | nil => simp only [hdrop, reduceCtorEq] at h
  | cons hyphen number =>
    have hhyphen : hyphen = '-' := by
      have := List.head?_dropWhile_not (fun c => decide (c ≠ '-')) cs
      rw [hdrop] at this
      simpa using this
    cases hyear : Numeral.read? Numeral.max31 (cs.takeWhile (· ≠ '-')) with
    | none => simp only [hdrop, hyear, reduceCtorEq] at h
    | some y =>
      cases hnumber : Numeral.read? Numeral.max32 number with
      | none => simp only [hdrop, hyear, hnumber, reduceCtorEq] at h
      | some n =>
        cases hof : of? y n with
        | none => simp only [hdrop, hyear, hnumber, hof, reduceCtorEq] at h
        | some m' =>
          simp only [hdrop, hyear, hnumber, hof, Except.ok.injEq] at h
          exact ⟨number, y, n, by rw [hhyphen], rfl, hnumber, by rw [hof, h]⟩

theorem of?_eq_some {y : Int} {n : Nat} (h : of? y n = some m) : m.year = y ∧ m.number = n := by
  unfold of? at h
  by_cases hn : 1 ≤ n ∧ n ≤ 12
  · rw [dif_pos hn, Option.some.injEq] at h
    subst h
    exact ⟨rfl, rfl⟩
  · rw [dif_neg hn] at h
    exact nomatch h

theorem spelled_of_parse (h : parse (String.ofList cs) = .ok m) : m.Spelled cs := by
  obtain ⟨number, y, n, hdrop, hyear, hnumber, hof⟩ := read_of_parse h
  obtain ⟨hspells, hle⟩ := Numeral.read?_eq_some.mp hyear
  obtain ⟨hspells', -⟩ := Numeral.read?_eq_some.mp hnumber
  obtain ⟨hy, hn⟩ := of?_eq_some hof
  have htoNat : m.year.toNat = y := by omega
  refine ⟨⟨by omega, by omega⟩, _, number, ?_, htoNat ▸ hspells, hn ▸ hspells'⟩
  rw [← hdrop, List.takeWhile_append_dropWhile]

/-- **What reads as a month**, and as which. -/
theorem parse_eq_ok : parse (String.ofList cs) = .ok m ↔ m.Spelled cs :=
  ⟨spelled_of_parse, parse_of_spelled⟩

theorem spelled_textChars (h : m.IsPlain) : m.Spelled m.textChars := by
  refine ⟨h, _, _, textChars_of_nonneg h.1, ?_, Numeral.spells_padded 2 m.number⟩
  have habs : m.year.toNat = m.year.natAbs := by have := h.1; omega
  rw [habs]
  exact Numeral.spells_padded 4 _

/-- A year before zero stands after a hyphen, which is taken for the one after the year. -/
theorem not_spelled_of_neg {a : Month} (h : a.year < 0) : ¬m.Spelled a.textChars := by
  rintro ⟨-, year, number, hcs, hyear, -⟩
  rw [textChars, Numeral.paddedInt, if_pos h, List.cons_append] at hcs
  cases year with
  | nil => exact hyear.ne_nil rfl
  | cons c year =>
    obtain ⟨rfl, -⟩ := List.cons_eq_cons.mp hcs
    exact hyear.not_mem_hyphen List.mem_cons_self

/-- Only a month that is written without a sign, and whose year has 31 bits, has a text that reads
as a month. -/
theorem isPlain_of_spelled {a : Month} (h : m.Spelled a.textChars) : a.IsPlain := by
  have ha : 0 ≤ a.year := Int.not_lt.mp fun hneg => not_spelled_of_neg hneg h
  obtain ⟨hm, year, number, hcs, hyear, -⟩ := h
  have hpadded := Numeral.spells_padded 4 a.year.natAbs
  rw [textChars_of_nonneg ha] at hcs
  have hsame := congrArg (List.takeWhile (· ≠ '-')) hcs
  rw [takeWhile_hyphen hpadded.not_mem_hyphen, takeWhile_hyphen hyear.not_mem_hyphen] at hsame
  have hvalue := hyear.unique (hsame ▸ hpadded)
  obtain ⟨h₀, h₉⟩ := hm
  exact ⟨ha, by omega⟩

/-- A text without a sign reads back as its month. -/
theorem IsPlain.parse_text (hm : m.IsPlain) : parse m.text = .ok m :=
  parse_of_spelled (spelled_textChars hm)

theorem ofJson?_toJson (h : m.IsPlain) : ofJson? m.toJson = some m := by
  rw [ofJson?, toJson, Json.text?, Option.bind_some, h.parse_text]
  rfl

theorem ofJson?_toJson_of_not (h : ¬m.IsPlain) : ofJson? m.toJson = none := by
  rw [ofJson?, toJson, Json.text?, Option.bind_some]
  cases hparse : parse m.text with
  | error f => rfl
  | ok a => exact absurd (isPlain_of_spelled (parse_eq_ok.mp hparse)) h

end Month

end OvertimeNotice
