import Mathlib.Data.Nat.Digits.Defs
import Mathlib.Tactic.FieldSimp
import Mathlib.Tactic.NormNum
import OvertimeNotice.Proofs.Binary64.Rounding

/-!
# The shortest decimal rounds to its number

Seventeen digits always suffice: on that grid a neighbour of the number is nearer to it than half
its last place. So the decimal that is found lies among the reals that round to the number.

* `Decimal.value`: the value of a decimal, which dropping zeros leaves alone.
* `leadingExponent_spec`: the leading digit of a quotient.
* `exists_gridPoint`: the last grid has a point.
* `shortest_spec`: the shortest decimal lies in the interval of its number and has at most seventeen
  digits.
-/

namespace OvertimeNotice

namespace Decimal

/-- The value of a decimal. -/
def value (d : Decimal) : ℚ := d.digits * 10 ^ d.exponent

/-- A power of ten is the quotient of those of the two parts of its exponent. -/
theorem ten_zpow (e : Int) : (10 : ℚ) ^ e * 10 ^ (-e).toNat = 10 ^ e.toNat := by
  rw [← zpow_natCast, ← zpow_natCast, ← zpow_add₀ (by norm_num)]
  congr 1
  omega

theorem ten_zpow_pos (e : Int) : (0 : ℚ) < 10 ^ e := zpow_pos (by norm_num) e

/-! ## Zeros at the end -/

theorem value_stripZeros (fuel : Nat) (d : Decimal) : (stripZeros fuel d).value = d.value := by
  induction fuel generalizing d with
  | zero => rfl
  | succ fuel ih =>
    rw [stripZeros]
    split
    · rename_i h
      rw [ih, value, value, zpow_add₀ (by norm_num), zpow_one]
      have hdigits : (d.digits : ℚ) = ((d.digits / 10 : Nat) : ℚ) * 10 := by
        have : d.digits = d.digits / 10 * 10 := by omega
        exact_mod_cast this
      rw [hdigits]
      ring
    · rfl

theorem digits_stripZeros (fuel : Nat) (d : Decimal) :
    (stripZeros fuel d).digits ≤ d.digits ∧ d.exponent ≤ (stripZeros fuel d).exponent := by
  induction fuel generalizing d with
  | zero => exact ⟨Nat.le_refl _, Int.le_refl _⟩
  | succ fuel ih =>
    rw [stripZeros]
    split
    · obtain ⟨hdigits, hexponent⟩ := ih ⟨d.digits / 10, d.exponent + 1⟩
      simp only at hdigits hexponent
      constructor <;> omega
    · exact ⟨Nat.le_refl _, Int.le_refl _⟩

/-! ## The leading digit -/

theorem pow_digitCount_le {n : Nat} (h : 0 < n) : 10 ^ (digitCount n - 1) ≤ n := by
  rw [digitCount, if_neg (by omega)]
  rcases Nat.eq_zero_or_pos ((Nat.toDigits 10 n).length - 1) with h0 | hpos
  · rw [h0]
    exact h
  · have := (Nat.length_toDigits_le_iff (n := n) (by decide : 1 < 10) hpos).not
    omega

theorem lt_pow_digitCount (n : Nat) : n < 10 ^ digitCount n := by
  unfold digitCount
  split
  · omega
  · have hpos : 0 < (Nat.toDigits 10 n).length :=
      List.length_pos_iff.mpr Nat.toDigits_ne_nil
    exact (Nat.length_toDigits_le_iff (by decide) hpos).mp (Nat.le_refl _)

theorem digitCount_pos {n : Nat} (h : 0 < n) : 0 < digitCount n := by
  rw [digitCount, if_neg (by omega)]
  exact List.length_pos_iff.mpr Nat.toDigits_ne_nil

variable {num den : Nat}

/-- A positive number lies between the powers of ten of its digits. -/
theorem exists_digitCount {n : Nat} (h : 0 < n) :
    ∃ k, digitCount n = k + 1 ∧ 10 ^ k ≤ n ∧ n < 10 ^ (k + 1) := by
  obtain ⟨k, hk⟩ : ∃ k, digitCount n = k + 1 := ⟨_, (Nat.sub_add_cancel (digitCount_pos h)).symm⟩
  have hlow := pow_digitCount_le h
  have hhigh := lt_pow_digitCount n
  rw [hk] at hlow hhigh
  exact ⟨k, hk, hlow, hhigh⟩

/-- How many whole numbers lie below the reciprocal of a quotient that is below one. -/
theorem exists_below_reciprocal (hn : 0 < num) (hlt : num < den) :
    ∃ m, (den + num - 1) / num - 1 = m ∧ 0 < m ∧ m * num < den ∧ den ≤ (m + 1) * num := by
  have hm : (den + num - 1) / num - 1 = (den - 1) / num := by
    rw [show den + num - 1 = den - 1 + num by omega, Nat.add_div_right _ hn]
    rfl
  refine ⟨_, hm, Nat.div_pos (by omega) hn, ?_, ?_⟩
  · have := Nat.div_mul_le_self (den - 1) num
    omega
  · have := Nat.lt_mul_of_div_lt (Nat.lt_succ_self ((den - 1) / num)) hn
    rw [Nat.succ_eq_add_one] at this
    omega

/-- The leading digit of a quotient stands at its exponent. -/
theorem leadingExponent_spec (hn : 0 < num) (hd : 0 < den) :
    (10 : ℚ) ^ leadingExponent num den ≤ num / den ∧
      (num / den : ℚ) < 10 ^ (leadingExponent num den + 1) := by
  have hd' : (0 : ℚ) < den := by exact_mod_cast hd
  unfold leadingExponent
  split
  · rename_i hle
    obtain ⟨k, hk, hlow, hhigh⟩ := exists_digitCount (Nat.div_pos hle hd)
    rw [Nat.le_div_iff_mul_le hd] at hlow
    rw [Nat.div_lt_iff_lt_mul hd] at hhigh
    rw [hk, Nat.cast_add, Nat.cast_one, add_sub_cancel_right, le_div_iff₀ hd', div_lt_iff₀ hd',
      ← Nat.cast_one, ← Nat.cast_add, zpow_natCast, zpow_natCast]
    exact ⟨by exact_mod_cast hlow, by exact_mod_cast hhigh⟩
  · rename_i hlt
    obtain ⟨m, hm, hmpos, hbelow, habove⟩ := exists_below_reciprocal hn (Nat.lt_of_not_le hlt)
    obtain ⟨k, hk, hlow, hhigh⟩ := exists_digitCount hmpos
    have hden : den ≤ num * 10 ^ (k + 1) :=
      habove.trans ((Nat.mul_le_mul_right num hhigh).trans_eq (Nat.mul_comm _ _))
    have hden' : num * 10 ^ k < den :=
      ((Nat.mul_le_mul_left num hlow).trans_eq (Nat.mul_comm _ _)).trans_lt hbelow
    have hexponent : -((k + 1 : Nat) : Int) + 1 = -(k : Int) := by omega
    rw [hm, hk, hexponent, zpow_neg, zpow_neg, zpow_natCast, zpow_natCast]
    constructor
    · rw [inv_eq_one_div, div_le_div_iff₀ (by positivity) hd', one_mul]
      exact_mod_cast hden
    · rw [inv_eq_one_div, div_lt_div_iff₀ hd' (by positivity), one_mul]
      exact_mod_cast hden'

end Decimal

namespace Binary64

variable {s p : Nat}

/-! ## The grids -/

/-- The interval has the value, in quarters of a unit. -/
structure Interval.Contains (i : Interval) (x : ℚ) : Prop where
  low : i.low ≤ x
  high : x ≤ i.high
  isOpen : i.closed = false → i.low < x ∧ x < i.high

/-- A point of the grid, in quarters of a unit. -/
theorem grid_value (d : Nat) (e : Int) : (4 * unitsPerOne * (⟨d, e⟩ : Decimal).value : ℚ) =
    (d * (4 * unitsPerOne * 10 ^ e.toNat) : Nat) / (10 ^ (-e).toNat : Nat) := by
  have hup : (0 : ℚ) < 10 ^ (-e).toNat := by positivity
  rw [Decimal.value]
  push_cast
  rw [eq_div_iff hup.ne', ← Decimal.ten_zpow e]
  ring

theorem contains_of_inside {i : Interval} {d : Nat} {e : Int}
    (h : (if i.closed then
        decide (i.low * 10 ^ (-e).toNat ≤ d * (4 * unitsPerOne * 10 ^ e.toNat)) &&
          decide (d * (4 * unitsPerOne * 10 ^ e.toNat) ≤ i.high * 10 ^ (-e).toNat)
      else
        decide (i.low * 10 ^ (-e).toNat < d * (4 * unitsPerOne * 10 ^ e.toNat)) &&
          decide (d * (4 * unitsPerOne * 10 ^ e.toNat) < i.high * 10 ^ (-e).toNat)) = true) :
    i.Contains (4 * unitsPerOne * (⟨d, e⟩ : Decimal).value) := by
  have hup : (0 : ℚ) < (10 ^ (-e).toNat : Nat) := by positivity
  rw [grid_value]
  split at h
  · rename_i hclosed
    rw [Bool.and_eq_true, decide_eq_true_iff, decide_eq_true_iff] at h
    refine ⟨?_, ?_, fun hopen => absurd (hclosed.symm.trans hopen) (by decide)⟩
    · rw [le_div_iff₀ hup]
      exact_mod_cast h.1
    · rw [div_le_iff₀ hup]
      exact_mod_cast h.2
  · rw [Bool.and_eq_true, decide_eq_true_iff, decide_eq_true_iff] at h
    have hlow : (i.low : ℚ) < (d * (4 * unitsPerOne * 10 ^ e.toNat) : Nat) /
        (10 ^ (-e).toNat : Nat) := by
      rw [lt_div_iff₀ hup]
      exact_mod_cast h.1
    have hhigh : ((d * (4 * unitsPerOne * 10 ^ e.toNat) : Nat) : ℚ) /
        (10 ^ (-e).toNat : Nat) < i.high := by
      rw [div_lt_iff₀ hup]
      exact_mod_cast h.2
    exact ⟨hlow.le, hhigh.le, fun _ => ⟨hlow, hhigh⟩⟩

/-- A grid point lies in the interval, and is one of the two neighbours of the number. -/
theorem gridPoint?_eq_some {i : Interval} {e : Int} {d : Decimal} (h : i.gridPoint? e = some d) :
    d.exponent = e ∧
      d.digits ≤ i.value * 10 ^ (-e).toNat / (4 * unitsPerOne * 10 ^ e.toNat) + 1 ∧
      i.Contains (4 * unitsPerOne * d.value) := by
  unfold Interval.gridPoint? at h
  simp only at h
  split at h
  · rename_i hbelow habove
    split at h
    all_goals
      rw [← Option.some.inj h]
    · exact ⟨rfl, Nat.le_succ _, contains_of_inside hbelow⟩
    · exact ⟨rfl, Nat.le_refl _, contains_of_inside habove⟩
  · rename_i hbelow _
    rw [← Option.some.inj h]
    exact ⟨rfl, Nat.le_succ _, contains_of_inside hbelow⟩
  · rename_i _ habove
    rw [← Option.some.inj h]
    exact ⟨rfl, Nat.le_refl _, contains_of_inside habove⟩
  · exact nomatch h

/-- A neighbour of the number that lies strictly inside the interval is a point for it. -/
theorem exists_gridPoint_of_inside {i : Interval} {e : Int} {below : Nat}
    (hbelow : i.value * 10 ^ (-e).toNat / (4 * unitsPerOne * 10 ^ e.toNat) = below)
    (h : ∃ d, (d = below ∨ d = below + 1) ∧
      i.low * 10 ^ (-e).toNat < d * (4 * unitsPerOne * 10 ^ e.toNat) ∧
        d * (4 * unitsPerOne * 10 ^ e.toNat) < i.high * 10 ^ (-e).toNat) :
    ∃ d, i.gridPoint? e = some d := by
  obtain ⟨d, hd, hlow, hhigh⟩ := h
  have hinside : (if i.closed then
        decide (i.low * 10 ^ (-e).toNat ≤ d * (4 * unitsPerOne * 10 ^ e.toNat)) &&
          decide (d * (4 * unitsPerOne * 10 ^ e.toNat) ≤ i.high * 10 ^ (-e).toNat)
      else
        decide (i.low * 10 ^ (-e).toNat < d * (4 * unitsPerOne * 10 ^ e.toNat)) &&
          decide (d * (4 * unitsPerOne * 10 ^ e.toNat) < i.high * 10 ^ (-e).toNat)) = true := by
    split <;> simp [hlow, hhigh, Nat.le_of_lt]
  unfold Interval.gridPoint?
  simp only [hbelow]
  rcases hd with rfl | rfl
  · rw [hinside]
    split
    · split <;> exact ⟨_, rfl⟩
    · exact ⟨_, rfl⟩
    all_goals
      rename_i h _
      exact nomatch h
  · rw [hinside]
    split
    · split <;> exact ⟨_, rfl⟩
    · rename_i h
      exact nomatch h
    · exact ⟨_, rfl⟩
    · rename_i h
      exact nomatch h

/-- Steps of at most one part in `10^16` do not skip the interval. The ends are `k` and `4 * s + 2`,
in quarters of the last place. -/
theorem exists_neighbour {k place step : Nat} (hs : s < 2 ^ 53)
    (hk : k + 2 = 4 * s ∨ k + 1 = 4 * s ∧ s = 2 ^ 52) (hstep : 0 < step)
    (h : 10 ^ 16 * step ≤ 4 * s * place) :
    ∃ d, (d = 4 * s * place / step ∨ d = 4 * s * place / step + 1) ∧
      k * place < d * step ∧ d * step < (4 * s + 2) * place := by
  have hdiv := Nat.div_add_mod (4 * s * place) step
  have hmod := Nat.mod_lt (4 * s * place) hstep
  rw [Nat.mul_comm step] at hdiv
  rw [Nat.mul_assoc] at *
  rw [Nat.add_mul, Nat.mul_assoc]
  have hplace : s * place ≤ 2 ^ 53 * place := Nat.mul_le_mul_right place hs.le
  have hkplace : k * place + 2 * place = 4 * (s * place) ∨
      k * place + place = 4 * (s * place) ∧ s * place = 2 ^ 52 * place := by
    rcases hk with hk | ⟨hk, rfl⟩
    · left
      rw [← Nat.add_mul, hk, Nat.mul_assoc]
    · right
      refine ⟨?_, rfl⟩
      rw [← Nat.succ_mul, Nat.succ_eq_add_one, hk, Nat.mul_assoc]
  generalize 4 * (s * place) / step = below at *
  by_cases hbelow : k * place < below * step
  · exact ⟨below, .inl rfl, hbelow, by omega⟩
  · refine ⟨below + 1, .inr rfl, ?_⟩
    rw [Nat.add_mul, Nat.one_mul]
    omega

/-- A grid that is fine enough has a point for the interval. -/
theorem exists_gridPoint (hc : (finite false s p).Canonical) (hs : 0 < s) {e : Int}
    (h : 10 ^ 16 * (4 * unitsPerOne * 10 ^ e.toNat) ≤ (interval s p).value * 10 ^ (-e).toNat) :
    ∃ d, (interval s p).gridPoint? e = some d := by
  obtain ⟨k, hlow, hk⟩ := exists_low (p := p) hs
  have hk' : k + 2 = 4 * s ∨ k + 1 = 4 * s ∧ s = 2 ^ 52 := hk.imp And.left fun h => ⟨h.1, h.2.1⟩
  have hstep : 0 < 4 * unitsPerOne * 10 ^ e.toNat :=
    Nat.mul_pos (Nat.mul_pos (by decide) unitsPerOne_pos) (Nat.pow_pos (by decide))
  refine exists_gridPoint_of_inside rfl ?_
  rw [hlow]
  simp only [interval, Nat.mul_assoc _ (2 ^ p)] at h ⊢
  exact exists_neighbour hc.1 hk' hstep h

/-- The exponent of the leading digit of a number. -/
def leadOf (s p : Nat) : Int := Decimal.leadingExponent (interval s p).value (4 * unitsPerOne)

theorem leadOf_spec (hs : 0 < s) :
    (4 * unitsPerOne * 10 ^ leadOf s p : ℚ) ≤ (interval s p).value ∧
      ((interval s p).value : ℚ) < 4 * unitsPerOne * 10 ^ (leadOf s p + 1) := by
  have hvalue : 0 < (interval s p).value := by
    simp only [interval]
    positivity
  have hunits : 0 < 4 * unitsPerOne := Nat.mul_pos (by decide) unitsPerOne_pos
  have hunits' : (0 : ℚ) < (4 * unitsPerOne : Nat) := by exact_mod_cast hunits
  obtain ⟨hlow, hhigh⟩ := Decimal.leadingExponent_spec hvalue hunits
  rw [le_div_iff₀ hunits'] at hlow
  rw [div_lt_iff₀ hunits'] at hhigh
  push_cast at hlow hhigh
  rw [leadOf, mul_comm, mul_comm (4 * (unitsPerOne : ℚ)) (10 ^ _)]
  exact ⟨hlow, hhigh⟩

/-- The number on a grid below its leading digit, in terms of the grid's step. -/
theorem value_on_grid (hs : 0 < s) (n : Nat) :
    let e := leadOf s p - n
    10 ^ n * (4 * unitsPerOne * 10 ^ e.toNat) ≤ (interval s p).value * 10 ^ (-e).toNat ∧
      (interval s p).value * 10 ^ (-e).toNat < 10 ^ (n + 1) * (4 * unitsPerOne * 10 ^ e.toNat) := by
  intro e
  obtain ⟨hlow, hhigh⟩ := leadOf_spec (p := p) hs
  have hup : (0 : ℚ) < 10 ^ (-e).toNat := by positivity
  have hlead : leadOf s p = e + n := by omega
  rw [hlead, zpow_add₀ (by norm_num), zpow_natCast] at hlow
  rw [hlead, add_assoc, zpow_add₀ (by norm_num), zpow_add_one₀ (by norm_num), zpow_natCast,
    ← pow_succ] at hhigh
  constructor
  · have := mul_le_mul_of_nonneg_right hlow hup.le
    rw [show (4 * unitsPerOne * (10 ^ e * 10 ^ n) * 10 ^ (-e).toNat : ℚ) =
      10 ^ n * (4 * unitsPerOne * (10 ^ e * 10 ^ (-e).toNat)) by ring, Decimal.ten_zpow] at this
    exact_mod_cast this
  · have := mul_lt_mul_of_pos_right hhigh hup
    rw [show (4 * unitsPerOne * (10 ^ e * 10 ^ (n + 1)) * 10 ^ (-e).toNat : ℚ) =
      10 ^ (n + 1) * (4 * unitsPerOne * (10 ^ e * 10 ^ (-e).toNat)) by ring,
      Decimal.ten_zpow] at this
    exact_mod_cast this

/-- The shortest decimal lies among the reals that round to its number, and it has at most seventeen
digits from the leading one of the number on. -/
theorem shortest_spec (hc : (finite false s p).Canonical) (hs : 0 < s) :
    (interval s p).Contains (4 * unitsPerOne * (shortest s p).value) ∧
      (shortest s p).digits ≤ 10 ^ 17 ∧ leadOf s p - 16 ≤ (shortest s p).exponent := by
  obtain ⟨d, hd⟩ := exists_gridPoint hc hs (value_on_grid hs 16).1
  have hsome : ((List.range 17).findSome? fun (n : Nat) =>
      (interval s p).gridPoint? (leadOf s p - (n : Int))).isSome = true :=
    List.findSome?_isSome_iff.mpr ⟨16, by simp, by rw [hd]; rfl⟩
  obtain ⟨d, hfound⟩ := Option.isSome_iff_exists.mp hsome
  have hshortest : shortest s p = Decimal.stripZeros 18 d := by
    rw [leadOf] at hfound
    simp only [shortest, if_neg (Nat.ne_of_gt hs), hfound, Option.getD_some]
  obtain ⟨n, hn, hpoint⟩ := List.exists_of_findSome?_eq_some hfound
  have hn : n < 17 := List.mem_range.mp hn
  obtain ⟨hexponent, hdigits, hcontains⟩ := gridPoint?_eq_some hpoint
  obtain ⟨hstrip, hstrip'⟩ := Decimal.digits_stripZeros 18 d
  rw [hshortest, Decimal.value_stripZeros]
  refine ⟨hcontains, hstrip.trans (hdigits.trans ?_), by omega⟩
  have hbelow := (Nat.div_lt_iff_lt_mul (Nat.mul_pos (Nat.mul_pos (by decide) unitsPerOne_pos)
    (Nat.pow_pos (by decide)))).mpr (value_on_grid (p := p) hs n).2
  exact hbelow.trans_le (Nat.pow_le_pow_right (by decide) hn)

end Binary64

end OvertimeNotice
