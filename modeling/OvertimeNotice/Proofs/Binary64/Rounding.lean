import Mathlib.Tactic.ByContra
import Mathlib.Tactic.Linarith
import Mathlib.Tactic.Positivity
import Mathlib.Tactic.Ring
import OvertimeNotice.Binary64.Shortest

/-!
# Rounding to binary64

Which quotients round to a number, and how far a number lies from the quotient it was rounded from.

* `roundTiesEven_near`, `roundTiesEven_eq`: the nearest whole number.
* `ofUnits_of_interval`: a quotient in the interval of a number rounds to it.
* `ofUnits_exact`: a quotient that is a number rounds to itself.
* `ofUnits_near`: a quotient in the range of full significands is off by one part in `2^53` at most.
-/

namespace OvertimeNotice

/-! ## The nearest whole number -/

section

variable {num den n : Nat}

theorem roundTiesEven_near (num : Nat) (hd : 0 < den) :
    2 * (roundTiesEven num den * den) ≤ 2 * num + den ∧
      2 * num ≤ 2 * (roundTiesEven num den * den) + den := by
  have hdiv := Nat.div_add_mod num den
  have hmod := Nat.mod_lt num hd
  rw [Nat.mul_comm] at hdiv
  unfold roundTiesEven
  simp only
  split
  · omega
  · rw [Nat.add_mul, Nat.one_mul]
    omega

/-- A whole number within one half is the nearest one; exactly one half away it must be even. -/
theorem roundTiesEven_eq (hlow : 2 * (n * den) ≤ 2 * num + den)
    (hhigh : 2 * num ≤ 2 * (n * den) + den)
    (hodd : n % 2 = 1 → 2 * (n * den) < 2 * num + den ∧ 2 * num < 2 * (n * den) + den)
    (hd : 0 < den) : roundTiesEven num den = n := by
  have hdiv := Nat.div_add_mod num den
  have hmod := Nat.mod_lt num hd
  rw [Nat.mul_comm] at hdiv
  unfold roundTiesEven
  simp only
  generalize num / den = q at *
  generalize num % den = r at *
  have hn : n = q ∨ n = q + 1 := by
    by_contra hne
    rcases (by omega : n + 1 ≤ q ∨ q + 2 ≤ n) with h | h
    · have := Nat.mul_le_mul_right den h
      rw [Nat.add_mul] at this
      omega
    · have := Nat.mul_le_mul_right den h
      rw [Nat.add_mul] at this
      omega
  rcases hn with rfl | rfl
  · rw [if_pos (by omega)]
  · rw [Nat.add_mul] at *
    rw [if_neg (by omega)]

end

namespace Binary64

variable {n : Bool} {s p num den : Nat}

theorem unitsPerOne_pos : 0 < unitsPerOne := by
  rw [unitsPerOne]
  positivity

/-! ## Powers -/

theorem powerOf_of_between {m : Nat} (hlow : 2 ^ 52 * 2 ^ p ≤ m) (hhigh : m < 2 ^ 53 * 2 ^ p) :
    powerOf m = p := by
  have hm : m ≠ 0 := by
    have : 0 < 2 ^ 52 * 2 ^ p := by positivity
    omega
  rw [← Nat.pow_add] at hlow hhigh
  have h₁ := (Nat.le_log2 hm).mpr hlow
  have h₂ := (Nat.log2_lt hm).mpr hhigh
  unfold powerOf precision
  omega

/-- Every whole number beyond the full significands has the power that leaves it one. -/
theorem between_powerOf {m : Nat} (h : 2 ^ 52 ≤ m) :
    2 ^ 52 * 2 ^ powerOf m ≤ m ∧ m < 2 ^ 53 * 2 ^ powerOf m := by
  have hm : m ≠ 0 := by omega
  have hlog : 52 ≤ m.log2 := (Nat.le_log2 hm).mpr h
  have hp : powerOf m = m.log2 - 52 := by
    unfold powerOf precision
    omega
  rw [hp, ← Nat.pow_add, ← Nat.pow_add]
  constructor
  · exact (Nat.le_log2 hm).mp (by omega)
  · exact (Nat.log2_lt hm).mp (by omega)

/-- The power of a quotient that leaves it a full significand, or needs none. -/
theorem powerOf_div (hd : 0 < den) (hlow : p = 0 ∨ 2 ^ 52 * (den * 2 ^ p) ≤ num)
    (hhigh : num < 2 ^ 53 * (den * 2 ^ p)) : powerOf (num / den) = p := by
  have hlt : num / den < 2 ^ 53 * 2 ^ p := by
    rwa [Nat.div_lt_iff_lt_mul hd, Nat.mul_assoc, Nat.mul_comm (2 ^ p)]
  rcases hlow with rfl | hlow
  · exact powerOf_of_lt (by rwa [Nat.pow_zero, Nat.mul_one] at hlt)
  · refine powerOf_of_between ?_ hlt
    rwa [Nat.le_div_iff_mul_le hd, Nat.mul_assoc, Nat.mul_comm (2 ^ p)]

/-! ## Quotients that round to a number -/

/-- A quotient that leaves a full significand at a power is rounded there. -/
theorem ofUnits_of_round (hp : powerOf (num / den) = p) (hs : roundTiesEven num (den * 2 ^ p) = s)
    (hlt : s < 2 ^ precision) (hmax : p ≤ maxPower) : ofUnits n num den = finite n s p := by
  simp only [ofUnits, hp, hs, if_neg (Nat.ne_of_lt hlt), if_pos hmax]

/-- A quotient that is rounded up to the next power. -/
theorem ofUnits_of_round_up (hp : powerOf (num / den) = p)
    (hs : roundTiesEven num (den * 2 ^ p) = 2 ^ precision) (hmax : p + 1 ≤ maxPower) :
    ofUnits n num den = finite n (2 ^ (precision - 1)) (p + 1) := by
  simp only [ofUnits, hp, hs, if_pos hmax, if_true]

/-- The lower end of an interval, in quarters of a unit at the power. -/
theorem exists_low (hs : 0 < s) : ∃ k, (interval s p).low = k * 2 ^ p ∧
    (k + 2 = 4 * s ∧ ¬(s = 2 ^ 52 ∧ p ≠ 0) ∨ k + 1 = 4 * s ∧ s = 2 ^ 52 ∧ p ≠ 0) := by
  refine ⟨_, rfl, ?_⟩
  split
  · rename_i h
    exact .inr ⟨by omega, h⟩
  · rename_i h
    exact .inl ⟨by omega, h⟩

/-- A quotient in the interval of a number, given in quarters of a unit, rounds to it. -/
theorem ofUnits_of_interval (hc : (finite n s p).Canonical) (hs : 0 < s) (hd : 0 < den)
    (hlow : (interval s p).low * den ≤ 4 * num) (hhigh : 4 * num ≤ (interval s p).high * den)
    (hopen : s % 2 = 1 →
      (interval s p).low * den < 4 * num ∧ 4 * num < (interval s p).high * den) :
    ofUnits n num den = finite n s p := by
  obtain ⟨hs53, hp, hfull⟩ := hc
  have hs53 : s < 2 ^ 53 := hs53
  have hfull : p = 0 ∨ 2 ^ 52 ≤ s := hfull
  obtain ⟨k, hk, hks⟩ := exists_low (p := p) hs
  -- the ends of the interval, times the denominator
  have hhighN : (interval s p).high * den = 4 * (s * (den * 2 ^ p)) + 2 * (den * 2 ^ p) := by
    simp only [interval]
    ring
  have hlowN : (interval s p).low * den = k * (den * 2 ^ p) := by
    rw [hk]
    ring
  rw [hhighN] at hhigh hopen
  rw [hlowN] at hlow hopen
  have hN : 0 < den * 2 ^ p := by positivity
  have hsN : (s + 1) * (den * 2 ^ p) ≤ 2 ^ 53 * (den * 2 ^ p) := Nat.mul_le_mul_right _ hs53
  rw [Nat.add_mul, Nat.one_mul] at hsN
  by_cases hnear : p = 0 ∨ 2 ^ 52 * (den * 2 ^ p) ≤ num
  · have hpow : powerOf (num / den) = p := powerOf_div hd hnear (by omega)
    have hround : roundTiesEven num (den * 2 ^ p) = s := by
      have hkN : 4 * (s * (den * 2 ^ p)) ≤ k * (den * 2 ^ p) + 2 * (den * 2 ^ p) := by
        have := Nat.mul_le_mul_right (den * 2 ^ p) (by omega : 4 * s ≤ k + 2)
        rwa [Nat.add_mul, Nat.mul_assoc] at this
      exact roundTiesEven_eq (by omega) (by omega) (by omega) hN
    exact ofUnits_of_round hpow hround hs53 hp
  · -- below the least full significand: the quotient is rounded up to it
    obtain ⟨hp0, hlt⟩ := not_or.mp hnear
    have hs52 : 2 ^ 52 ≤ s := hfull.resolve_left hp0
    have hleast : s = 2 ^ 52 ∧ k + 1 = 4 * s := by
      have hk54 : k < 2 ^ 54 := by
        by_contra hk54
        have := Nat.mul_le_mul_right (den * 2 ^ p) (Nat.le_of_not_lt hk54)
        omega
      rcases hks with ⟨hks, hne⟩ | ⟨hks, hs, -⟩
      · exact absurd ⟨by omega, hp0⟩ hne
      · exact ⟨hs, hks⟩
    obtain ⟨rfl, hk4⟩ := hleast
    obtain ⟨p, rfl⟩ := Nat.exists_eq_succ_of_ne_zero hp0
    have hM : 0 < den * 2 ^ p := by positivity
    have hdouble : den * 2 ^ (p + 1) = 2 * (den * 2 ^ p) := by ring
    obtain rfl : k = 4 * 2 ^ 52 - 1 := by omega
    rw [Nat.succ_eq_add_one, hdouble] at hlow hlt
    have hpow : powerOf (num / den) = p := powerOf_div hd (.inr (by omega)) (by omega)
    have hround : roundTiesEven num (den * 2 ^ p) = 2 ^ precision :=
      roundTiesEven_eq (by rw [precision]; omega) (by rw [precision]; omega)
        (fun h => absurd h (by decide)) hM
    exact ofUnits_of_round_up hpow hround hp

/-- A quotient that is a number rounds to it. -/
theorem ofUnits_exact (hc : (finite n s p).Canonical) (hd : 0 < den)
    (h : num = s * 2 ^ p * den) : ofUnits n num den = finite n s p := by
  subst h
  rcases Nat.eq_zero_or_pos s with rfl | hs
  · obtain rfl : p = 0 := hc.2.2.resolve_right (by decide)
    have hpow : powerOf (0 * 2 ^ 0 * den / den) = 0 := by
      rw [Nat.zero_mul, Nat.zero_mul, Nat.zero_div]
      exact powerOf_of_lt (by decide)
    have hround : roundTiesEven (0 * 2 ^ 0 * den) (den * 2 ^ 0) = 0 := by
      simp [roundTiesEven, hd]
    exact ofUnits_of_round hpow hround (by decide) (Nat.zero_le _)
  · obtain ⟨k, hk, hks⟩ := exists_low (p := p) hs
    have hlow : (interval s p).low < 4 * (s * 2 ^ p) := by
      have : k < 4 * s := by omega
      rw [hk, ← Nat.mul_assoc]
      exact Nat.mul_lt_mul_of_pos_right this (Nat.two_pow_pos p)
    have hhigh : 4 * (s * 2 ^ p) < (interval s p).high := by
      simp only [interval, ← Nat.mul_assoc]
      exact Nat.mul_lt_mul_of_pos_right (by omega) (Nat.two_pow_pos p)
    have hlow' := Nat.mul_lt_mul_of_pos_right hlow hd
    have hhigh' := Nat.mul_lt_mul_of_pos_right hhigh hd
    rw [Nat.mul_assoc] at hlow' hhigh'
    exact ofUnits_of_interval hc hs hd (Nat.le_of_lt hlow') (Nat.le_of_lt hhigh')
      fun _ => ⟨hlow', hhigh'⟩

theorem ofUnits_of_zero (h : num = 0) (hd : 0 < den) : ofUnits n num den = finite n 0 0 :=
  ofUnits_exact ⟨by decide, by decide, .inl rfl⟩ hd (by rw [h, Nat.zero_mul, Nat.zero_mul])

theorem ofNat_zero : ofNat 0 = zero := by
  rw [ofNat, zero, ofUnits_of_zero (Nat.zero_mul unitsPerOne) Nat.one_pos]

/-- No units, whatever they are counted against. -/
theorem no_units (m : Nat) : 0 * 2 ^ 0 * m = 0 := by rw [Nat.zero_mul, Nat.zero_mul]

/-- Zero times a number is zero. -/
theorem zero_mul_finite (s p : Nat) : zero.mul (finite false s p) = zero := by
  rw [zero, mul, ofUnits_of_zero (no_units (s * 2 ^ p)) unitsPerOne_pos]
  rfl

/-- Zero over a number is zero. -/
theorem zero_div_finite (hs : 0 < s) : zero.div (finite false s p) = zero := by
  rw [zero, div, if_neg (Nat.ne_of_gt hs),
    ofUnits_of_zero (no_units unitsPerOne) (Nat.mul_pos hs (Nat.two_pow_pos p))]
  rfl

/-! ## How far rounding goes -/

/-- Rounding a quotient in the range of full significands moves it by one part in `2^53` at
most. -/
theorem ofUnits_near (hd : 0 < den) (hlow : 2 ^ 52 * den ≤ num)
    (hmax : powerOf (num / den) < maxPower) :
    ∃ s p, ofUnits n num den = finite n s p ∧ (finite n s p).Canonical ∧ 2 ^ 52 ≤ s ∧
      2 ^ 53 * (s * 2 ^ p * den) ≤ 2 ^ 53 * num + num ∧
      2 ^ 53 * num ≤ 2 ^ 53 * (s * 2 ^ p * den) + num := by
  have hq : 2 ^ 52 ≤ num / den := (Nat.le_div_iff_mul_le hd).mpr hlow
  obtain ⟨hge, hlt⟩ := between_powerOf hq
  generalize hp : powerOf (num / den) = p at *
  rw [Nat.le_div_iff_mul_le hd, Nat.mul_assoc, Nat.mul_comm (2 ^ p)] at hge
  rw [Nat.div_lt_iff_lt_mul hd, Nat.mul_assoc, Nat.mul_comm (2 ^ p)] at hlt
  have hN : 0 < den * 2 ^ p := by positivity
  obtain ⟨hnear, hnear'⟩ := roundTiesEven_near num hN
  generalize hs : roundTiesEven num (den * 2 ^ p) = s at *
  have hs52 : 2 ^ 52 ≤ s := by
    by_contra hs52
    have := Nat.mul_le_mul_right (den * 2 ^ p) (by omega : s + 1 ≤ 2 ^ 52)
    rw [Nat.add_mul] at this
    omega
  have hs53 : s ≤ 2 ^ 53 := by
    by_contra hs53
    have := Nat.mul_le_mul_right (den * 2 ^ p) (by omega : 2 ^ 53 + 1 ≤ s)
    rw [Nat.add_mul] at this
    omega
  rcases Nat.lt_or_eq_of_le hs53 with hs53 | rfl
  · refine ⟨s, p, ofUnits_of_round hp hs hs53 (Nat.le_of_lt hmax),
      ⟨hs53, Nat.le_of_lt hmax, .inr hs52⟩, hs52, ?_⟩
    have hcomm : s * 2 ^ p * den = s * (den * 2 ^ p) := by ring
    rw [hcomm]
    omega
  · refine ⟨2 ^ 52, p + 1, ofUnits_of_round_up hp hs hmax, ⟨by decide, hmax, .inr (by decide)⟩,
      Nat.le_refl _, ?_⟩
    have hcomm : 2 ^ 52 * 2 ^ (p + 1) * den = 2 ^ 53 * (den * 2 ^ p) := by ring
    rw [hcomm]
    omega

end Binary64

end OvertimeNotice
