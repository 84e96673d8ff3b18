import Mathlib.Tactic.FieldSimp
import Mathlib.Tactic.GCongr
import Mathlib.Tactic.NormNum
import OvertimeNotice.Proofs.Binary64.Rounding

/-!
# Rounding errors

A rounding moves a number by one part in `2^53` at most. Errors of several roundings multiply, so
they are counted: two magnitudes differ by `k` roundings at most if each is at most the other times
the `k`-th power of one factor.

* `Within`: two magnitudes differ by so many roundings at most.
* `Within.abs_sub_le`: four roundings stay below one part in `2^50`.
* `Full`: numbers with a full significand.
* `ofUnits_within`, `ofNat_within`, `div_within`: one rounding each.
* `exists_full_halves`: small numbers of halves are among the numbers.
* `ofNat_exact`: small numbers times a power of two are not rounded.
-/

namespace OvertimeNotice

namespace Binary64

/-! ## Counting roundings -/

/-- The factor that one rounding stays below. -/
def drift : ℚ := 2 ^ 53 / (2 ^ 53 - 1)

theorem one_le_drift : 1 ≤ drift := by norm_num [drift]

theorem drift_pos : 0 < drift := one_pos.trans_le one_le_drift

/-- The magnitudes differ by `k` roundings at most. -/
structure Within (k : Nat) (y x : ℚ) : Prop where
  le : y ≤ x * drift ^ k
  ge : x ≤ y * drift ^ k

namespace Within

variable {j k : Nat} {w x y z : ℚ}

theorem trans (h : Within j z y) (h' : Within k y x) : Within (j + k) z x := by
  have hj : 0 ≤ drift ^ j := (pow_pos drift_pos j).le
  have hk : 0 ≤ drift ^ k := (pow_pos drift_pos k).le
  constructor
  · calc z ≤ y * drift ^ j := h.le
      _ ≤ x * drift ^ k * drift ^ j := mul_le_mul_of_nonneg_right h'.le hj
      _ = x * drift ^ (j + k) := by ring
  · calc x ≤ y * drift ^ k := h'.ge
      _ ≤ z * drift ^ j * drift ^ k := mul_le_mul_of_nonneg_right h.ge hk
      _ = z * drift ^ (j + k) := by ring

theorem mul_right (h : Within k y x) (hw : 0 ≤ w) : Within k (y * w) (x * w) := by
  constructor
  · rw [mul_right_comm]
    exact mul_le_mul_of_nonneg_right h.le hw
  · rw [mul_right_comm]
    exact mul_le_mul_of_nonneg_right h.ge hw

theorem div (h : Within j y x) (h' : Within k z w) (hy : 0 ≤ y) (hx : 0 ≤ x) (hz : 0 < z)
    (hw : 0 < w) : Within (j + k) (y / z) (x / w) := by
  have hj : 0 ≤ drift ^ j := (pow_pos drift_pos j).le
  constructor
  · rw [div_le_iff₀ hz]
    calc y ≤ x * drift ^ j := h.le
      _ = x / w * w * drift ^ j := by rw [div_mul_cancel₀ _ hw.ne']
      _ ≤ x / w * (z * drift ^ k) * drift ^ j := by
        have := h'.ge
        have hxw := div_nonneg hx hw.le
        gcongr
      _ = x / w * drift ^ (j + k) * z := by ring
  · rw [div_le_iff₀ hw]
    calc x ≤ y * drift ^ j := h.ge
      _ = y / z * z * drift ^ j := by rw [div_mul_cancel₀ _ hz.ne']
      _ ≤ y / z * (w * drift ^ k) * drift ^ j := by
        have := h'.le
        have hyz := div_nonneg hy hz.le
        gcongr
      _ = y / z * drift ^ (j + k) * w := by ring

/-- A magnitude that is off by one part in `2^53` at most is off by one rounding. -/
theorem of_abs_sub_le (h : 2 ^ 53 * |y - x| ≤ x) : Within 1 y x := by
  have hx : 0 ≤ x := (by positivity : (0 : ℚ) ≤ 2 ^ 53 * |y - x|).trans h
  obtain ⟨hlow, hhigh⟩ := abs_le.mp ((le_div_iff₀' (by norm_num)).mpr h)
  have hdrift : drift * (2 ^ 53 - 1) = 2 ^ 53 := by norm_num [drift]
  have hslack : (1 : ℚ) + 1 / 2 ^ 53 ≤ drift := by norm_num [drift]
  rw [neg_le_sub_iff_le_add] at hlow
  rw [sub_le_iff_le_add] at hhigh
  refine ⟨?_, ?_⟩ <;> rw [pow_one]
  · calc y ≤ x / 2 ^ 53 + x := hhigh
      _ = x * (1 + 1 / 2 ^ 53) := by ring
      _ ≤ x * drift := mul_le_mul_of_nonneg_left hslack hx
  · refine le_of_mul_le_mul_right ?_ (by norm_num : (0 : ℚ) < 2 ^ 53 - 1)
    rw [mul_assoc, hdrift]
    linarith

/-- One rounding does not double a magnitude, nor halve it. -/
theorem le_two_mul (h : Within 1 y x) (hx : 0 ≤ x) (hy : 0 ≤ y) : y ≤ 2 * x ∧ x ≤ 2 * y := by
  have htwo : drift ^ 1 ≤ 2 := by norm_num [drift]
  rw [mul_comm 2 x, mul_comm 2 y]
  exact ⟨h.le.trans (mul_le_mul_of_nonneg_left htwo hx),
    h.ge.trans (mul_le_mul_of_nonneg_left htwo hy)⟩

/-- Four roundings stay below one part in `2^50`. -/
theorem abs_sub_le (h : Within 4 y x) (hx : 0 ≤ x) (hy : 0 ≤ y) : 2 ^ 50 * |y - x| ≤ x := by
  have hfour : drift ^ 4 ≤ 1 + 1 / 2 ^ 50 := by norm_num [drift]
  have hle : y ≤ x * (1 + 1 / 2 ^ 50) := h.le.trans (mul_le_mul_of_nonneg_left hfour hx)
  have hge : x ≤ y * (1 + 1 / 2 ^ 50) := h.ge.trans (mul_le_mul_of_nonneg_left hfour hy)
  rw [← le_div_iff₀' (by norm_num), abs_le]
  constructor <;> linarith

end Within

/-! ## One rounding -/

/-- A positive number with a full significand. -/
structure Full (s p : Nat) : Prop where
  canonical : (finite false s p).Canonical
  full : 2 ^ 52 ≤ s

variable {s p t q k n num den : Nat}

theorem Full.pos (h : Full s p) : 0 < s := Nat.lt_of_lt_of_le (by decide) h.full

/-- The magnitude of a positive number, in units. -/
def size (s p : Nat) : ℚ := s * 2 ^ p

theorem Full.size_pos (h : Full s p) : 0 < size s p :=
  mul_pos (Nat.cast_pos.mpr h.pos) (by positivity)

theorem size_eq (s p : Nat) : size s p = (s * 2 ^ p : Nat) := by
  rw [size]
  push_cast
  rfl

theorem two_pow_mul_unitsPerOne (k : Nat) : 2 ^ k * unitsPerOne = 2 ^ (k + 1074) := by
  rw [unitsPerOne, Nat.pow_add]

theorem two_pow_le_unitsPerOne (hk : k ≤ 1074) : 2 ^ k ≤ unitsPerOne := by
  have h := Nat.pow_le_pow_right Nat.two_pos hk
  rwa [unitsPerOne]

theorem powerOf_le {m a b : Nat} (h : m < 2 ^ b) (hb : b ≤ a + 53) : powerOf m ≤ a := by
  unfold powerOf precision
  by_cases hm : m = 0
  · subst hm
    have : Nat.log2 0 = 0 := by decide
    omega
  · have := (Nat.log2_lt hm).mpr h
    omega

/-- A quotient in the range of full significands is off by one rounding. -/
theorem ofUnits_within (hd : 0 < den) (hlow : 2 ^ 52 * den ≤ num)
    (hhigh : num < 2 ^ 200 * unitsPerOne * den) :
    ∃ s p, Full s p ∧ ofUnits false num den = finite false s p ∧
      Within 1 (size s p) (num / den) := by
  have hmax : powerOf (num / den) < maxPower := by
    have hlt := (Nat.div_lt_iff_lt_mul hd).mpr hhigh
    rw [two_pow_mul_unitsPerOne] at hlt
    exact Nat.lt_of_le_of_lt (powerOf_le (a := 1221) hlt (by decide)) (by decide)
  obtain ⟨s, p, heq, hc, hs, hle, hge⟩ := ofUnits_near (n := false) hd hlow hmax
  refine ⟨s, p, ⟨hc, hs⟩, heq, .of_abs_sub_le ?_⟩
  have hd' : (0 : ℚ) < den := by exact_mod_cast hd
  have hle' : 2 ^ 53 * (size s p * den) ≤ 2 ^ 53 * num + num := by
    rw [size]
    exact_mod_cast hle
  have hge' : 2 ^ 53 * num ≤ 2 ^ 53 * (size s p * den) + num := by
    rw [size]
    exact_mod_cast hge
  have hsub : (size s p - num / den) * den = size s p * den - num := by
    rw [sub_mul, div_mul_cancel₀ _ hd'.ne']
  rw [le_div_iff₀ hd', mul_assoc, ← abs_of_pos hd', ← abs_mul, abs_of_pos hd', hsub,
    ← le_div_iff₀' (by norm_num), abs_le]
  constructor <;> linarith

/-! ## The operations -/

/-- A small number of large powers of two units is one of the numbers. -/
theorem exists_full_units (ht : 0 < t) (h : t < 2 ^ 53) (hlow : 52 ≤ k) (hhigh : k ≤ maxPower) :
    ∃ s p, Full s p ∧ s * 2 ^ p = t * 2 ^ k := by
  have hlog : t.log2 < 53 := (Nat.log2_lt (Nat.ne_of_gt ht)).mpr h
  have hself : 2 ^ t.log2 ≤ t := Nat.log2_self_le (Nat.ne_of_gt ht)
  have hnext : t < 2 ^ (t.log2 + 1) := Nat.lt_log2_self
  have hfull : 2 ^ 52 ≤ t * 2 ^ (52 - t.log2) := by
    calc 2 ^ 52 = 2 ^ t.log2 * 2 ^ (52 - t.log2) := by rw [← Nat.pow_add]; congr 1; omega
      _ ≤ t * 2 ^ (52 - t.log2) := Nat.mul_le_mul_right _ hself
  have hlt : t * 2 ^ (52 - t.log2) < 2 ^ precision := by
    calc t * 2 ^ (52 - t.log2) < 2 ^ (t.log2 + 1) * 2 ^ (52 - t.log2) :=
          Nat.mul_lt_mul_of_pos_right hnext (Nat.two_pow_pos _)
      _ = 2 ^ precision := by rw [← Nat.pow_add, precision]; congr 1; omega
  refine ⟨t * 2 ^ (52 - t.log2), k - (52 - t.log2),
    ⟨⟨hlt, (Nat.sub_le _ _).trans hhigh, .inr hfull⟩, hfull⟩, ?_⟩
  rw [Nat.mul_assoc, ← Nat.pow_add]
  congr 2
  omega

/-- A small number times a power of two is one of the numbers. -/
theorem exists_full (ht : 0 < t) (h : t < 2 ^ 53) (hk : k ≤ 900) :
    ∃ s p, Full s p ∧ s * 2 ^ p = t * 2 ^ k * unitsPerOne := by
  rw [Nat.mul_assoc, two_pow_mul_unitsPerOne]
  exact exists_full_units ht h (by omega) (by rw [maxPower]; omega)

/-- A small number of halves is one of the numbers. -/
theorem exists_full_halves (ht : 0 < t) (h : t < 2 ^ 53) :
    ∃ s p, Full s p ∧ 2 * (s * 2 ^ p) = t * unitsPerOne := by
  -- the exponent stays a variable, or the power would be worked out
  obtain ⟨k, hk⟩ : ∃ k, k + 1 = 1074 := ⟨1073, rfl⟩
  obtain ⟨s, p, hfull, hsize⟩ :=
    exists_full_units (k := k) ht h (by omega) (by rw [maxPower]; omega)
  refine ⟨s, p, hfull, ?_⟩
  rw [hsize, unitsPerOne, ← hk, Nat.pow_succ', Nat.mul_left_comm]

/-- A small number times a power of two is not rounded. -/
theorem ofNat_exact (ht : 0 < t) (h : t < 2 ^ 53) (hk : k ≤ 900) :
    ∃ s p, Full s p ∧ ofNat (t * 2 ^ k) = finite false s p ∧
      s * 2 ^ p = t * 2 ^ k * unitsPerOne := by
  obtain ⟨s, p, hfull, hsize⟩ := exists_full ht h hk
  refine ⟨s, p, hfull, ofUnits_exact hfull.canonical Nat.one_pos ?_, hsize⟩
  rw [Nat.mul_one, hsize]

theorem ofNat_small (hn : 0 < n) (h : n < 2 ^ 53) :
    ∃ s p, Full s p ∧ ofNat n = finite false s p ∧ s * 2 ^ p = n * unitsPerOne := by
  have hexact := ofNat_exact (k := 0) hn h (Nat.zero_le _)
  rwa [Nat.pow_zero, Nat.mul_one] at hexact

theorem unitsPerOne_cast_pos : (0 : ℚ) < unitsPerOne := Nat.cast_pos.mpr unitsPerOne_pos

/-- A natural number is rounded once. -/
theorem ofNat_within (hn : 0 < n) (h : n < 2 ^ 100) :
    ∃ s p, Full s p ∧ ofNat n = finite false s p ∧ Within 1 (size s p) (n * unitsPerOne) := by
  have hunits : 2 ^ 52 ≤ unitsPerOne := two_pow_le_unitsPerOne (by decide)
  have hlow : 2 ^ 52 * 1 ≤ n * unitsPerOne := hunits.trans (Nat.le_mul_of_pos_left _ hn)
  have hhigh : n * unitsPerOne < 2 ^ 200 * unitsPerOne * 1 := by
    rw [Nat.mul_one]
    exact Nat.mul_lt_mul_of_pos_right (h.trans (by decide)) unitsPerOne_pos
  obtain ⟨s, p, hfull, heq, hwithin⟩ := ofUnits_within Nat.one_pos hlow hhigh
  rw [Nat.cast_one, div_one, Nat.cast_mul] at hwithin
  exact ⟨s, p, hfull, heq, hwithin⟩

/-- A quotient of numbers that are far from the ends of the range is rounded once. -/
theorem div_within (ht : Full t q) (hlow : size t q ≤ size s p * 2 ^ 100)
    (hhigh : size s p ≤ size t q * 2 ^ 100) :
    ∃ s' p', Full s' p' ∧ (finite false s p).div (finite false t q) = finite false s' p' ∧
      Within 1 (size s' p') (size s p * unitsPerOne / size t q) := by
  have hunits : 2 ^ 52 * 2 ^ 100 ≤ unitsPerOne := by
    rw [← Nat.pow_add]
    exact two_pow_le_unitsPerOne (by decide)
  have hlow : t * 2 ^ q ≤ s * 2 ^ p * 2 ^ 100 := by
    rw [size_eq, size_eq] at hlow
    exact_mod_cast hlow
  have hhigh : s * 2 ^ p ≤ t * 2 ^ q * 2 ^ 100 := by
    rw [size_eq, size_eq] at hhigh
    exact_mod_cast hhigh
  have hd : 0 < t * 2 ^ q := Nat.mul_pos ht.pos (Nat.two_pow_pos q)
  have hlow' : 2 ^ 52 * (t * 2 ^ q) ≤ s * 2 ^ p * unitsPerOne := by
    calc 2 ^ 52 * (t * 2 ^ q) ≤ 2 ^ 52 * (s * 2 ^ p * 2 ^ 100) := Nat.mul_le_mul_left _ hlow
      _ = s * 2 ^ p * (2 ^ 52 * 2 ^ 100) := by ring
      _ ≤ s * 2 ^ p * unitsPerOne := Nat.mul_le_mul_left _ hunits
  have hhigh' : s * 2 ^ p * unitsPerOne < 2 ^ 200 * unitsPerOne * (t * 2 ^ q) := by
    calc s * 2 ^ p * unitsPerOne ≤ t * 2 ^ q * 2 ^ 100 * unitsPerOne :=
          Nat.mul_le_mul_right _ hhigh
      _ < t * 2 ^ q * 2 ^ 200 * unitsPerOne :=
          Nat.mul_lt_mul_of_pos_right (Nat.mul_lt_mul_of_pos_left (by decide) hd) unitsPerOne_pos
      _ = 2 ^ 200 * unitsPerOne * (t * 2 ^ q) := by ring
  obtain ⟨s', p', hfull, heq, hwithin⟩ := ofUnits_within hd hlow' hhigh'
  refine ⟨s', p', hfull, ?_, ?_⟩
  · rw [div, if_neg (Nat.ne_of_gt ht.pos)]
    exact heq
  · rw [size_eq s p, size_eq t q]
    exact_mod_cast hwithin

end Binary64

end OvertimeNotice
