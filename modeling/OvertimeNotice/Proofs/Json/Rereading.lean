import OvertimeNotice.Proofs.Binary64.Error
import OvertimeNotice.Proofs.Binary64.Shortest
import OvertimeNotice.Proofs.Json.NumberText

/-!
# Numbers that are written and read again

The text of a number has its shortest digits, which would round back to it. They are not rounded at
once, though: digits and power of ten are rounded each, and then their quotient. So a number may
come back changed in its last places. One whose digits and power are small comes back unchanged, for
then only the quotient is rounded.

* `Binary64.Moderate`: the numbers looked at here.
* `Binary64.reread`: what the text of a number is read as; `Moderate.text?_eq`.
* `Moderate.reread_eq`: numbers that come back unchanged.
* `Moderate.reread_near`: how far the others move.
-/

namespace OvertimeNotice

namespace Decimal

variable {d : Decimal}

theorem value_pointed (d : Decimal) : d.pointed.value = d.value := by
  unfold pointed
  split
  · rename_i he
    have hexponent : (10 : ℚ) ^ d.exponent = 10 ^ d.exponent.toNat := by
      rw [← zpow_natCast, Int.toNat_of_nonneg he]
    rw [value, value, hexponent]
    push_cast
    rw [pow_succ, zpow_neg_one]
    ring
  · rfl

theorem pointed_digits_pos (h : d.digits ≠ 0) : 0 < d.pointed.digits := by
  unfold pointed
  split
  · exact Nat.mul_pos (Nat.pos_of_ne_zero h) (Nat.pow_pos (by decide))
  · exact Nat.pos_of_ne_zero h

/-- The value of a decimal as a quotient of whole numbers. -/
theorem value_eq_quotient (d : Decimal) :
    d.value = d.pointed.digits / (10 ^ (-d.pointed.exponent).toNat : Nat) := by
  have hneg := d.pointed_exponent_neg
  have hpower : (10 : ℚ) ^ d.pointed.exponent * 10 ^ (-d.pointed.exponent).toNat = 1 := by
    have h := ten_zpow d.pointed.exponent
    rwa [Int.toNat_of_nonpos hneg.le, pow_zero] at h
  rw [← value_pointed, eq_div_iff (by positivity), value]
  push_cast
  rw [mul_assoc, hpower, mul_one]

/-- A decimal is at least the power of ten of its leading digit. -/
theorem ten_zpow_lead_le (h : d.digits ≠ 0) : (10 : ℚ) ^ d.lead ≤ d.value := by
  have hlow := pow_digitCount_le (Nat.pos_of_ne_zero h)
  rw [digitCount, if_neg h] at hlow
  have hlength : 0 < (Nat.toDigits 10 d.digits).length :=
    List.length_pos_iff.mpr Nat.toDigits_ne_nil
  have hlead : d.lead = ((Nat.toDigits 10 d.digits).length - 1 : Nat) + d.exponent := by
    rw [lead]
    omega
  rw [hlead, zpow_add₀ (by norm_num), zpow_natCast, value]
  exact mul_le_mul_of_nonneg_right (by exact_mod_cast hlow) (ten_zpow_pos _).le

open Binary64

/-- What a decimal is read as is off by three roundings. -/
theorem quotient_within (hne : d.digits ≠ 0) (hlead : d.lead ≤ 15) (hdigits : d.digits ≤ 10 ^ 17)
    (hexponent : -27 ≤ d.exponent) :
    ∃ s p, Full s p ∧ d.quotient = finite false s p ∧
      Within 3 (size s p) (d.value * unitsPerOne) := by
  have hpos := pointed_digits_pos hne
  have hlt := pointed_digits_lt hlead hdigits
  have hlow : -27 ≤ d.pointed.exponent := by
    unfold pointed
    split
    · show (-27 : Int) ≤ -1
      omega
    · exact hexponent
  have hvalue := d.value_eq_quotient
  rw [quotient]
  generalize hk : (-d.pointed.exponent).toNat = k at *
  generalize d.pointed.digits = n at *
  have hten : 10 ^ k ≤ 10 ^ 27 := Nat.pow_le_pow_right (by decide) (by omega)
  have hten' : 0 < 10 ^ k := Nat.pow_pos (by decide)
  obtain ⟨s₁, p₁, h₁, heq₁, hw₁⟩ := ofNat_within hpos (hlt.trans_lt (by decide))
  obtain ⟨s₂, p₂, h₂, heq₂, hw₂⟩ := ofNat_within hten' (hten.trans_lt (by decide))
  have hunits := unitsPerOne_cast_pos
  have hn : (1 : ℚ) * unitsPerOne ≤ n * unitsPerOne ∧
      n * unitsPerOne ≤ 10 ^ 17 * (unitsPerOne : ℚ) :=
    ⟨mul_le_mul_of_nonneg_right (by exact_mod_cast hpos) hunits.le,
      mul_le_mul_of_nonneg_right (by exact_mod_cast hlt) hunits.le⟩
  have hpower : (1 : ℚ) * unitsPerOne ≤ (10 ^ k : Nat) * unitsPerOne ∧
      (10 ^ k : Nat) * unitsPerOne ≤ 10 ^ 27 * (unitsPerOne : ℚ) :=
    ⟨mul_le_mul_of_nonneg_right (by exact_mod_cast hten') hunits.le,
      mul_le_mul_of_nonneg_right (by exact_mod_cast hten) hunits.le⟩
  have hd₁ := hw₁.le_two_mul (by linarith) h₁.size_pos.le
  have hd₂ := hw₂.le_two_mul (by linarith) h₂.size_pos.le
  obtain ⟨s, p, hfull, heq, hw⟩ := div_within (s := s₁) (p := p₁) h₂ (by linarith) (by linarith)
  refine ⟨s, p, hfull, ?_, ?_⟩
  · rw [JsonNumeral.tenTo, heq₁, heq₂, heq]
  · have hquotient : Within 2 (size s₁ p₁ / size s₂ p₂) (d.value) := by
      have h := hw₁.div hw₂ h₁.size_pos.le (by linarith) h₂.size_pos (by linarith)
      rwa [mul_div_mul_right _ _ hunits.ne', ← hvalue] at h
    have hscaled := hquotient.mul_right hunits.le
    rw [div_mul_eq_mul_div] at hscaled
    exact hw.trans hscaled

end Decimal

namespace Binary64

variable {s p : Nat}

/-! ## The shortest digits of a full number -/

theorem size_interval (s p : Nat) : ((interval s p).value : ℚ) = 4 * size s p := by
  simp only [interval, size]
  push_cast
  ring

/-- The shortest decimal of a full number is off by one rounding. -/
theorem shortest_within (h : Full s p) :
    Within 1 ((shortest s p).value * unitsPerOne) (size s p) := by
  obtain ⟨⟨hlow, hhigh, -⟩, -, -⟩ := shortest_spec h.canonical h.pos
  obtain ⟨k, hk, hks⟩ := exists_low (p := p) h.pos
  have hpow : (0 : ℚ) < 2 ^ p := by positivity
  have hhigh' : ((interval s p).high : ℚ) = 4 * size s p + 2 * 2 ^ p := by
    simp only [interval, size]
    push_cast
    ring
  have hlow' : 4 * size s p - 2 * 2 ^ p ≤ ((interval s p).low : ℚ) := by
    have hle : (4 * s : ℚ) ≤ k + 2 := by exact_mod_cast (by omega : 4 * s ≤ k + 2)
    have := mul_le_mul_of_nonneg_right hle hpow.le
    rw [hk, size]
    push_cast
    linarith
  have hplace : 2 ^ 52 * 2 ^ p ≤ size s p :=
    mul_le_mul_of_nonneg_right (by exact_mod_cast h.full) hpow.le
  refine .of_abs_sub_le ?_
  rw [← le_div_iff₀' (by norm_num), abs_le]
  constructor <;> linarith

/-- The range of the numbers looked at. -/
structure InRange (s p : Nat) : Prop where
  full : Full s p
  low : unitsPerOne ≤ s * 2 ^ p * 2 ^ 30
  high : s * 2 ^ p ≤ 2 ^ 40 * unitsPerOne

namespace InRange

theorem low_cast (h : InRange s p) : (unitsPerOne : ℚ) ≤ size s p * 2 ^ 30 := by
  rw [size_eq]
  exact_mod_cast h.low

theorem high_cast (h : InRange s p) : size s p ≤ 2 ^ 40 * (unitsPerOne : ℚ) := by
  rw [size_eq]
  exact_mod_cast h.high

theorem value_pos (h : InRange s p) : 0 < (shortest s p).value := by
  have hpos := h.full.size_pos.trans_le (shortest_within h.full).ge
  rw [mul_pos_iff_of_pos_right (pow_pos drift_pos 1),
    mul_pos_iff_of_pos_right unitsPerOne_cast_pos] at hpos
  exact hpos

theorem value_le (h : InRange s p) : (shortest s p).value ≤ 2 ^ 41 := by
  have hle := ((shortest_within h.full).le_two_mul h.full.size_pos.le
    (mul_pos h.value_pos unitsPerOne_cast_pos).le).1
  have hhigh := h.high_cast
  refine le_of_mul_le_mul_right ?_ unitsPerOne_cast_pos
  linarith

theorem digits_ne_zero (h : InRange s p) : (shortest s p).digits ≠ 0 := by
  intro hzero
  have hpos := h.value_pos
  rw [Decimal.value, hzero, Nat.cast_zero, zero_mul] at hpos
  exact lt_irrefl _ hpos

theorem lead_le (h : InRange s p) : (shortest s p).lead ≤ 15 := by
  have hle := (Decimal.ten_zpow_lead_le h.digits_ne_zero).trans h.value_le
  have hlt : (10 : ℚ) ^ (shortest s p).lead < 10 ^ (16 : Int) :=
    hle.trans_lt (by norm_num)
  have := (zpow_lt_zpow_iff_right₀ (by norm_num)).mp hlt
  omega

theorem le_exponent (h : InRange s p) : -26 ≤ (shortest s p).exponent := by
  obtain ⟨-, -, hexponent⟩ := shortest_spec h.full.canonical h.full.pos
  have hlead : -10 ≤ leadOf s p := by
    by_contra hlt
    have hsize := (leadOf_spec (p := p) h.full.pos).2
    have hpow : (10 : ℚ) ^ (leadOf s p + 1) ≤ 10 ^ (-10 : Int) :=
      zpow_le_zpow_right₀ (by norm_num) (by omega)
    have hmul := mul_le_mul_of_nonneg_left hpow unitsPerOne_cast_pos.le
    have hlow := h.low_cast
    have hten : (unitsPerOne : ℚ) * 10 ^ (-10 : Int) * 2 ^ 30 < unitsPerOne := by
      have : (10 : ℚ) ^ (-10 : Int) * 2 ^ 30 < 1 := by norm_num
      have := mul_lt_mul_of_pos_left this unitsPerOne_cast_pos
      linarith
    rw [size_interval] at hsize
    linarith
  omega

theorem digits_le (h : InRange s p) : (shortest s p).digits ≤ 10 ^ 17 :=
  (shortest_spec h.full.canonical h.full.pos).2.1

end InRange

/-- Zero, or a number from `2^-30` to `2^40`. -/
inductive Moderate : Binary64 → Prop where
  | zero : Moderate zero
  | inRange {s p : Nat} (h : InRange s p) : Moderate (finite false s p)

/-! ## Reading the text -/

/-- What the text of a number is read as. -/
def reread (x : Binary64) : Binary64 :=
  (((x.text?.bind JsonNumeral.parse?).bind JsonNumeral.value?).map Number.toBinary64).getD x

theorem text?_eq (s p : Nat) : (finite false s p).text? = some (shortest s p).numeral.chars :=
  congrArg some (Decimal.chars_numeral _).symm

/-- The numeral of the text is in order, and read as the quotient of its digits. -/
structure Readable (s p : Nat) : Prop where
  wellFormed : (shortest s p).numeral.WellFormed
  value? : (shortest s p).numeral.value? = some (.real (shortest s p).quotient)

theorem InRange.readable (h : InRange s p) : Readable s p := by
  have := h.le_exponent
  exact ⟨Decimal.wellFormed_numeral h.digits_ne_zero,
    Decimal.value?_numeral h.lead_le h.digits_le (by omega)⟩

theorem readable_zero : Readable 0 0 where
  wellFormed := by
    have hnumeral : (shortest 0 0).numeral = ⟨false, ['0'], ['0'], none⟩ := rfl
    rw [hnumeral]
    exact ⟨⟨by simp, by simp⟩, fun _ => rfl, fun _ => ⟨by simp, by simp⟩, nofun⟩
  value? := Decimal.value?_numeral (by decide) (by decide) (by decide)

theorem Readable.reread (h : Readable s p) :
    (finite false s p).reread = (shortest s p).quotient := by
  rw [Binary64.reread, text?_eq, Option.bind_some, JsonNumeral.parse?_chars h.wellFormed,
    Option.bind_some, h.value?, Option.map_some, Option.getD_some, Number.toBinary64]

theorem reread_zero : zero.reread = zero := by
  obtain ⟨s, p, hfull, hten, -⟩ := ofNat_exact (t := 5) (k := 1) (by decide) (by decide) (by decide)
  have hpointed : (shortest 0 0).pointed = ⟨0, -1⟩ := by decide
  have hpower : 10 ^ (-(-1 : Int)).toNat = 5 * 2 ^ 1 := by decide
  rw [zero, readable_zero.reread, Decimal.quotient, hpointed, JsonNumeral.tenTo, hpower, hten,
    ofNat_zero, zero_div_finite hfull.pos, zero]

variable {x : Binary64}

/-- The text of a number is a word, which is read as a number. -/
theorem Moderate.text?_eq (h : x.Moderate) : ∃ text, x.text? = some text ∧
    (∀ c ∈ text, Token.isWordChar c = true) ∧
      Token.ofWord? text = some (.scalar (.number (.real x.reread))) := by
  obtain ⟨s, p, rfl, hread⟩ : ∃ s p, x = finite false s p ∧ Readable s p := by
    cases h with
    | zero => exact ⟨0, 0, rfl, readable_zero⟩
    | inRange h => exact ⟨_, _, rfl, h.readable⟩
  refine ⟨(shortest s p).numeral.chars, Binary64.text?_eq s p,
    fun c => JsonNumeral.isWordChar_of_mem_chars hread.wellFormed, ?_⟩
  rw [hread.reread]
  exact JsonNumeral.ofWord?_chars hread.wellFormed hread.value?

/-- A number comes back off by one part in `2^50` at most. -/
theorem Moderate.reread_near (h : x.Moderate) : 2 ^ 50 * |x.reread.units - x.units| ≤ x.units := by
  cases h with
  | zero =>
    rw [reread_zero]
    decide
  | @inRange s p h =>
    have := h.le_exponent
    obtain ⟨s', p', hfull, heq, hwithin⟩ :=
      Decimal.quotient_within h.digits_ne_zero h.lead_le h.digits_le (by omega)
    have hnear := (hwithin.trans (shortest_within h.full)).abs_sub_le h.full.size_pos.le
      hfull.size_pos.le
    rw [h.readable.reread, heq, units, units]
    rw [size, size] at hnear
    exact_mod_cast hnear

/-! ## Numbers that come back unchanged -/

/-- The shortest digits of a number make a whole number below `2^53`, and at most 22 of them stand
behind the point. -/
def Brief : Binary64 → Prop
  | finite _ s p => (shortest s p).digits < 2 ^ 53 ∧ -22 ≤ (shortest s p).exponent
  | _ => False

instance : DecidablePred Brief
  | finite .. => inferInstanceAs (Decidable (_ ∧ _))
  | nan => isFalse id
  | infinite _ => isFalse id

theorem InRange.pointed_of_brief (h : InRange s p) (hb : (finite false s p).Brief) :
    (shortest s p).pointed.digits < 2 ^ 53 ∧ (-(shortest s p).pointed.exponent).toNat ≤ 22 := by
  obtain ⟨hdigits, hexponent⟩ := hb
  have hvalue := h.value_le
  rw [← Decimal.value_pointed] at hvalue
  unfold Decimal.pointed at *
  split
  · rename_i he
    rw [if_pos he, Decimal.value, zpow_neg_one, ← div_eq_mul_inv,
      div_le_iff₀ (by norm_num)] at hvalue
    have hle : (shortest s p).digits * 10 ^ ((shortest s p).exponent.toNat + 1) ≤ 2 ^ 41 * 10 := by
      exact_mod_cast hvalue
    exact ⟨hle.trans_lt (by decide), (by decide : 1 ≤ 22)⟩
  · exact ⟨hdigits, by omega⟩

/-- Brief digits and their power of ten are not rounded, only their quotient is. -/
theorem ofNat_div_tenTo {n k : Nat} (hpos : 0 < n) (hn : n < 2 ^ 53) (hk : k ≤ 22) :
    (ofNat n).div (JsonNumeral.tenTo k) =
      ofUnits false (n * unitsPerOne * unitsPerOne) (10 ^ k * unitsPerOne) := by
  obtain ⟨s, p, -, heq, hsize⟩ := ofNat_small hpos hn
  have hfive : 5 ^ k ≤ 5 ^ 22 := Nat.pow_le_pow_right (by decide) hk
  obtain ⟨t, q, ht, hten, hsize'⟩ := ofNat_exact (t := 5 ^ k) (k := k)
    (Nat.pow_pos (by decide)) (hfive.trans_lt (by decide)) (by omega)
  rw [← Nat.mul_pow] at hten hsize'
  rw [JsonNumeral.tenTo, heq, hten, div, if_neg (Nat.ne_of_gt ht.pos), hsize, hsize']
  rfl

/-- A brief number comes back unchanged. -/
theorem Moderate.reread_eq (h : x.Moderate) (hb : x.Brief) : x.reread = x := by
  cases h with
  | zero => exact reread_zero
  | @inRange s p h =>
    obtain ⟨hn, hk⟩ := h.pointed_of_brief hb
    have hpos := Decimal.pointed_digits_pos h.digits_ne_zero
    have hvalue := (shortest s p).value_eq_quotient
    rw [h.readable.reread, Decimal.quotient]
    generalize (-(shortest s p).pointed.exponent).toNat = k at *
    generalize (shortest s p).pointed.digits = n at *
    rw [ofNat_div_tenTo hpos hn hk]
    -- the quotient lies in the interval of the number
    have hd : 0 < 10 ^ k * unitsPerOne := Nat.mul_pos (Nat.pow_pos (by decide)) unitsPerOne_pos
    obtain ⟨hlow, hhigh, hopen⟩ := (shortest_spec h.full.canonical h.full.pos).1
    have hquarters : ((4 * (n * unitsPerOne * unitsPerOne) : Nat) : ℚ) =
        4 * unitsPerOne * (shortest s p).value * (10 ^ k * unitsPerOne : Nat) := by
      rw [hvalue]
      push_cast
      generalize (unitsPerOne : ℚ) = u
      field_simp
    have hd' : (0 : ℚ) < (10 ^ k * unitsPerOne : Nat) := Nat.cast_pos.mpr hd
    refine ofUnits_of_interval h.full.canonical h.full.pos hd ?_ ?_ fun hodd => ?_
    · have := mul_le_mul_of_nonneg_right hlow hd'.le
      rw [← hquarters] at this
      exact_mod_cast this
    · have := mul_le_mul_of_nonneg_right hhigh hd'.le
      rw [← hquarters] at this
      exact_mod_cast this
    · obtain ⟨hlow, hhigh⟩ := hopen (by simp [interval, hodd])
      have hlow := mul_lt_mul_of_pos_right hlow hd'
      have hhigh := mul_lt_mul_of_pos_right hhigh hd'
      rw [← hquarters] at hlow hhigh
      exact ⟨by exact_mod_cast hlow, by exact_mod_cast hhigh⟩

end Binary64

end OvertimeNotice
